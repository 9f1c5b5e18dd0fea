import OsToyI386.Loader.Detection
import Mathlib.Data.List.Nodup

/-!
# The memory map handed to the kernel

When `detect_memory` ends within the BIOS map, whether its regions are usable memory, and
which entries of the map it keeps. All three fail on some maps: the test for the end of the
map is skipped for an ignored entry, the upper words of an entry are dropped, and the loop
ends one entry before the array is full.
-/

namespace OsToyI386

/-- An entry of the memory map with the length that the BIOS reports for it. -/
structure MapEntry where
  entry : SMAPEntry
  bytesRead : BitVec 8
  deriving DecidableEq

namespace MapEntry

/-- The reply for an entry, with the continuation value of the next one. -/
def reply (e : MapEntry) (contID : BitVec 32) : Reply :=
  ⟨smapSignature, e.bytesRead, contID, e.entry⟩

def ignored (e : MapEntry) : Bool := (e.reply 0).ignored

def usable (e : MapEntry) : Bool := (e.reply 0).usable

def region (e : MapEntry) : RamRegionInfo := (e.reply 0).region

def base (e : MapEntry) : Nat := (e.reply 0).base

def length (e : MapEntry) : Nat := (e.reply 0).length

/-- The entry lies below 4 GiB. -/
def Below4G (e : MapEntry) : Prop := e.base < 2 ^ 32 ∧ e.base + e.length ≤ 2 ^ 32

instance (e : MapEntry) : Decidable e.Below4G := inferInstanceAs (Decidable (_ ∧ _))

end MapEntry

/-- Called one after the other with the continuation values handed out, the BIOS replies
with the entries of the map; the value handed out with the last one, and only that, is 0. -/
structure Lists (bios : Bios) (es : List MapEntry) : Prop where
  nonempty : es ≠ []
  reply : ∀ i e, es[i]? = some e →
    ∃ c, bios i (bios.handed i) = e.reply c ∧ (c = 0 ↔ i + 1 = es.length)

/-- Whenever it is called, the BIOS replies to a continuation value with that entry of the
map and the next value, or 0 behind the last entry. -/
structure Serves (bios : Bios) (es : List MapEntry) : Prop where
  nonempty : es ≠ []
  fits : es.length ≤ 2 ^ 32
  reply : ∀ k i e, es[i]? = some e →
    bios k (BitVec.ofNat 32 i) =
      e.reply (if i + 1 = es.length then 0 else BitVec.ofNat 32 (i + 1))

/-- The service that knows a map. -/
def biosOf (es : List MapEntry) : Bios := fun _ c =>
  match es[c.toNat]? with
  | some e => e.reply (if c.toNat + 1 = es.length then 0 else BitVec.ofNat 32 (c.toNat + 1))
  | none => ⟨0, 0, 0, ⟨0, 0, 0, 0, 0, 0⟩⟩

lemma serves_biosOf {es : List MapEntry} (hne : es ≠ []) (hfits : es.length ≤ 2 ^ 32) :
    Serves (biosOf es) es := by
  refine ⟨hne, hfits, fun k i e he => ?_⟩
  have hi : i < es.length := (List.getElem?_eq_some_iff.mp he).1
  have hmod : i % 2 ^ 32 = i := Nat.mod_eq_of_lt (hi.trans_le hfits)
  simp only [biosOf, BitVec.toNat_ofNat, hmod, he]

/-- An untouched `boot_info`. -/
def BootInfo.zeroed : BootInfo := ⟨fun _ => ⟨0, 0⟩, 0⟩

/-- The memory below 640 KiB. -/
def lowMemory : MapEntry := ⟨⟨0, 0, 0x9FC00#32, 0, 1, 0⟩, 20#8⟩

/-- Two GiB of memory at 4 GiB. -/
def highMemory : MapEntry := ⟨⟨0, 1, 0x80000000#32, 0, 1, 0⟩, 20#8⟩

/-- A reserved range that is to be ignored. -/
def ignoredRange : MapEntry := ⟨⟨0xFEC00000#32, 0, 0x1000#32, 0, 2, 0⟩, 24#8⟩

/-- Memory cut into pieces of 4 KiB, one a MiB. -/
def piecesOfMemory (n : Nat) : List MapEntry :=
  (List.range n).map fun i => ⟨⟨BitVec.ofNat 32 (i * 0x100000), 0, 0x1000#32, 0, 1, 0⟩, 20#8⟩

section Maps

variable {bios : Bios} {es : List MapEntry} {b : BootInfo} {k n : Nat}

namespace Serves

lemma handed (h : Serves bios es) (hk : k < es.length) : bios.handed k = BitVec.ofNat 32 k := by
  induction k with
  | zero => rfl
  | succ k ih =>
    have hk' : k < es.length := k.lt_succ_self.trans hk
    rw [Bios.handed, ih hk', h.reply k k _ (List.getElem?_eq_getElem hk'), if_neg hk.ne]
    rfl

lemma ofNat_inj (h : Serves bios es) {i j : Nat} (hi : i < es.length) (hj : j < es.length)
    (hij : BitVec.ofNat 32 i = BitVec.ofNat 32 j) : i = j := by
  have hnat := congrArg BitVec.toNat hij
  have hfits := h.fits
  simp only [BitVec.toNat_ofNat] at hnat
  omega

lemma lists (h : Serves bios es) : Lists bios es := by
  refine ⟨h.nonempty, fun i e he => ?_⟩
  have hi : i < es.length := (List.getElem?_eq_some_iff.mp he).1
  refine ⟨_, by rw [h.handed hi]; exact h.reply i i e he, ?_⟩
  split
  · rename_i hlast
    exact ⟨fun _ => hlast, fun _ => rfl⟩
  · rename_i hnext
    refine ⟨fun hz => ?_, fun hlast => absurd hlast hnext⟩
    have hlt : i + 1 < es.length := lt_of_le_of_ne hi hnext
    have hzero : i + 1 = 0 := h.ofNat_inj hlt (i.succ_pos.trans hlt) hz
    exact absurd hzero i.succ_ne_zero

lemma handed_nodup (h : Serves bios es) (hk : k ≤ es.length) :
    ((List.range k).map bios.handed).Nodup := by
  apply List.Nodup.map_on _ List.nodup_range
  intro i hi j hj hij
  have hi' : i < es.length := (List.mem_range.mp hi).trans_le hk
  have hj' : j < es.length := (List.mem_range.mp hj).trans_le hk
  rw [h.handed hi', h.handed hj'] at hij
  exact h.ofNat_inj hi' hj' hij

end Serves

namespace Lists

lemma heard_regions (h : Lists bios es) (hk : k ≤ es.length) :
    ((((List.range k).map bios.call).map Prod.snd).filter Reply.usable).map Reply.region =
      ((es.take k).filter MapEntry.usable).map MapEntry.region := by
  induction k with
  | zero => rfl
  | succ k ih =>
    have he : es[k]? = some es[k] := List.getElem?_eq_getElem hk
    obtain ⟨c, hc, -⟩ := h.reply k _ he
    have htake : es.take (k + 1) = es.take k ++ [es[k]] := (List.take_append_getElem hk).symm
    have hone : (([bios.call k].map Prod.snd).filter Reply.usable).map Reply.region =
        ([es[k]].filter MapEntry.usable).map MapEntry.region := by
      simp only [Bios.call, hc, List.map_cons, List.map_nil]
      by_cases hu : es[k].usable = true
      · have hu' : (es[k].reply c).usable = true := hu
        rw [List.filter_cons_of_pos hu, List.filter_cons_of_pos hu']
        rfl
      · have hu' : ¬ (es[k].reply c).usable = true := hu
        rw [List.filter_cons_of_neg hu, List.filter_cons_of_neg hu']
        rfl
    rw [htake, List.filter_append, List.map_append, ← ih (Nat.le_of_succ_le hk), ← hone,
      List.range_succ, List.map_append, List.map_append, List.filter_append, List.map_append]
    rfl

lemma regions (h : Lists bios es) (hn : n ≤ es.length) :
    ∃ k, k ≤ n ∧ (detectMemory bios b n).log = (List.range k).map bios.call ∧
      (detectMemory bios b n).bootInfo.regions =
        ((es.take k).filter MapEntry.usable).map MapEntry.region ∧
      ((detectMemory bios b n).exit = none → k = n) := by
  obtain ⟨k, hk, hlog, hgoing⟩ := detectMemory_log bios b n
  refine ⟨k, hk, hlog, ?_, hgoing⟩
  rw [detectMemory_regions, Detect.heard, hlog]
  exact h.heard_regions (hk.trans hn)

lemma ended (h : Lists bios es) (hexit : (detectMemory bios b es.length).exit ≠ none) :
    (detectMemory bios b es.length).exit = some .ok ∧
      ∃ k, k < es.length ∧ (∀ e, es[k]? = some e → e.ignored = false) ∧
        (detectMemory bios b es.length).bootInfo.regions =
          ((es.take (k + 1)).filter MapEntry.usable).map MapEntry.region ∧
        (k + 1 = es.length ∨
          (detectMemory bios b es.length).bootInfo.count = bootRamRegionMax - 1) := by
  obtain ⟨k, hk, hgoing, hturn⟩ := detectMemory_ended hexit
  obtain ⟨hlog, hcont⟩ := detectMemory_going hgoing
  obtain ⟨c, hc, hlast⟩ := h.reply k _ (List.getElem?_eq_getElem hk)
  have hreply : (bios.call k).2 = es[k].reply c := hc
  have hign : (es[k].reply c).ignored = es[k].ignored := rfl
  have hsig : (es[k].reply c).signature = smapSignature := rfl
  have hregions : (detectMemory bios b es.length).bootInfo.regions =
      ((es.take (k + 1)).filter MapEntry.usable).map MapEntry.region := by
    rw [detectMemory_regions, hturn, Detect.turn_heard, Detect.heard, hlog,
      ← h.heard_regions hk, List.range_succ, List.map_append, List.map_append]
    rfl
  have hend : (detectMemory bios b es.length).exit =
      ((detectMemory bios b k).turn (es[k].reply c)).exit := by rw [hturn, hreply]
  rw [hend] at hexit ⊢
  rw [Detect.turn_exit, if_neg (not_not.mpr hsig), hign, hgoing] at hexit ⊢
  by_cases hskip : es[k].ignored = true
  · rw [if_pos hskip] at hexit
    exact absurd rfl hexit
  · rw [if_neg hskip] at hexit ⊢
    split_ifs at hexit ⊢ with hstop
    · refine ⟨rfl, k, hk, fun e he => ?_, hregions, ?_⟩
      · rw [List.getElem?_eq_getElem hk] at he
        rw [← Option.some.inj he]
        simpa using hskip
      · rw [hturn, hreply]
        exact hstop.imp_left hlast.mp
    · exact absurd rfl hexit

/-- The loop goes on behind the end of the map if the last entry is ignored and the array is
not taken as full before. -/
lemma goes_on_iff (h : Lists bios es) :
    (detectMemory bios b es.length).exit = none ↔
      (∀ e, es.getLast? = some e → e.ignored = true) ∧
        (es.filter MapEntry.usable).length < bootRamRegionMax - 1 := by
  have hpos : 0 < es.length := List.length_pos_of_ne_nil h.nonempty
  constructor
  · intro hexit
    constructor
    · intro e he
      rw [List.getLast?_eq_getElem?] at he
      obtain ⟨c, hc, hlast⟩ := h.reply _ e he
      have hmem : e.reply c ∈ (detectMemory bios b es.length).heard := by
        rw [Detect.heard, (detectMemory_going hexit).1, List.map_map]
        refine List.mem_map.mpr ⟨es.length - 1, List.mem_range.mpr (by omega), hc⟩
      have hzero : (e.reply c).contID = 0 := hlast.mpr (by omega)
      exact (detectMemory_heard hexit hmem).2.resolve_right (not_not.mpr hzero)
    · obtain ⟨k, -, -, hregions, hk⟩ := h.regions (b := b) le_rfl
      have hlen := congrArg List.length hregions
      rw [BootInfo.regions_length, hk hexit, List.take_length, List.length_map] at hlen
      rw [← hlen]
      exact (detectMemory_count bios b es.length).2 hexit
  · rintro ⟨hlast, hfew⟩
    by_contra hexit
    obtain ⟨-, k, hk, hskip, hregions, hend⟩ := h.ended hexit
    rcases hend with hall | hfull
    · have he : es.getLast? = some es[k] := by
        rw [List.getLast?_eq_getElem?, ← hall]
        exact List.getElem?_eq_getElem hk
      have hno := hskip _ (List.getElem?_eq_getElem hk)
      rw [hlast _ he] at hno
      cases hno
    · have hlen := congrArg List.length hregions
      rw [BootInfo.regions_length, hfull, List.length_map] at hlen
      have hsub := ((List.take_sublist (k + 1) es).filter MapEntry.usable).length_le
      omega

lemma regions_ended (h : Lists bios es) (hexit : (detectMemory bios b es.length).exit ≠ none) :
    (detectMemory bios b es.length).bootInfo.regions =
      ((es.filter MapEntry.usable).take (bootRamRegionMax - 1)).map MapEntry.region := by
  obtain ⟨-, k, hk, -, hregions, hend⟩ := h.ended hexit
  have hlen := congrArg List.length hregions
  rw [BootInfo.regions_length, List.length_map] at hlen
  have hcount := (detectMemory_count bios b es.length).1
  have hsplit : es.filter MapEntry.usable =
      (es.take (k + 1)).filter MapEntry.usable ++ (es.drop (k + 1)).filter MapEntry.usable := by
    rw [← List.filter_append, List.take_append_drop]
  rw [hregions]
  apply congrArg (List.map MapEntry.region)
  rcases hend with hall | hfull
  · rw [hall, List.take_length] at hlen ⊢
    exact (List.take_of_length_le (by omega)).symm
  · rw [hsplit, List.take_left' (by omega)]

end Lists

lemma detectMemory_mono (h : (detectMemory bios b k).exit ≠ none) (hk : k ≤ n) :
    detectMemory bios b n = detectMemory bios b k := by
  induction n, hk using Nat.le_induction with
  | base => rfl
  | succ n _ ih => rw [detectMemory_stay (ih ▸ h), ih]

lemma detectMemory_end (hk : (detectMemory bios b k).exit ≠ none)
    (hn : (detectMemory bios b n).exit ≠ none) :
    detectMemory bios b k = detectMemory bios b n := by
  rcases Nat.le_total k n with hle | hle
  · exact (detectMemory_mono hk hle).symm
  · exact detectMemory_mono hn hle

/-! ### The end of the map -/

/-- After `k` turns the loop has ended, with at most one call for each entry of the map, no
continuation value used twice, and no usable entry recorded twice. -/
structure StopsInMap (bios : Bios) (b : BootInfo) (es : List MapEntry) (k : Nat) : Prop where
  ended : (detectMemory bios b k).exit ≠ none
  calls : (detectMemory bios b k).log.length ≤ es.length
  once : ((detectMemory bios b k).log.map Prod.fst).Nodup
  regions : (detectMemory bios b k).bootInfo.regions.Sublist
    ((es.filter MapEntry.usable).map MapEntry.region)

lemma Serves.stopsInMap (h : Serves bios es)
    (hexit : (detectMemory bios b es.length).exit ≠ none) : StopsInMap bios b es es.length := by
  obtain ⟨k, hk, hlog, hregions, -⟩ := h.lists.regions (b := b) le_rfl
  refine ⟨hexit, by simpa [hlog] using hk, ?_, ?_⟩
  · rw [hlog, List.map_map]
    exact h.handed_nodup hk
  · rw [hregions]
    exact ((List.take_sublist k es).filter MapEntry.usable).map MapEntry.region

lemma StopsInMap.exit (h : StopsInMap bios b es k) :
    (detectMemory bios b es.length).exit ≠ none := by
  intro hgoing
  rcases Nat.le_total k es.length with hle | hle
  · rw [detectMemory_mono h.ended hle] at hgoing
    exact h.ended hgoing
  · obtain ⟨j, hj, hnone, hturn⟩ := detectMemory_ended h.ended
    have hlog : (detectMemory bios b k).log.length = j + 1 := by
      rw [hturn, Detect.turn_log, (detectMemory_going hnone).1]
      simp
    have hcalls := h.calls
    have hnext : detectMemory bios b (j + 1) = detectMemory bios b k := by
      rw [detectMemory_turn hnone, (detectMemory_going hnone).2, hturn]
      rfl
    have hended : (detectMemory bios b (j + 1)).exit ≠ none := hnext ▸ h.ended
    rw [detectMemory_mono hended (by omega)] at hgoing
    exact hended hgoing

/-- The loop ends within the map if the last entry is not ignored, or if the array is taken
as full before. -/
theorem detection_stops_iff (h : Serves bios es) :
    (∃ k, StopsInMap bios b es k) ↔
      (∀ e, es.getLast? = some e → e.ignored = false) ∨
        bootRamRegionMax - 1 ≤ (es.filter MapEntry.usable).length := by
  have hgoes := h.lists.goes_on_iff (b := b)
  have hlast : ∃ e, es.getLast? = some e :=
    ⟨_, List.getLast?_eq_some_getLast h.nonempty⟩
  obtain ⟨e, he⟩ := hlast
  rw [he] at hgoes ⊢
  simp only [Option.some.injEq, forall_eq'] at hgoes ⊢
  have hexit : (∃ k, StopsInMap bios b es k) ↔ (detectMemory bios b es.length).exit ≠ none :=
    ⟨fun ⟨_, hk⟩ => hk.exit, fun hexit => ⟨_, h.stopsInMap hexit⟩⟩
  rw [hexit, ne_eq, hgoes, not_and_or, not_lt, Bool.not_eq_true]

/-- A map of one entry is read once. -/
theorem detection_stops_low_memory :
    ∃ k, StopsInMap (biosOf [lowMemory]) .zeroed [lowMemory] k :=
  (detection_stops_iff (serves_biosOf (by simp) (by simp))).mpr (Or.inl (by decide))

/-- When the last entry of the map is ignored the loop starts over and records the first
entry again and again, until the array is taken as full. -/
theorem ignored_last_entry_restarts_map :
    Serves (biosOf [lowMemory, ignoredRange]) [lowMemory, ignoredRange] ∧
      (¬ ∃ k, StopsInMap (biosOf [lowMemory, ignoredRange]) .zeroed [lowMemory, ignoredRange] k) ∧
      (detectMemory (biosOf [lowMemory, ignoredRange]) .zeroed 17).bootInfo.regions =
        List.replicate 9 ⟨0, 0x9FC00#32⟩ := by
  refine ⟨serves_biosOf (by simp) (by simp), fun ⟨k, hk⟩ => hk.exit (by decide), by decide⟩

lemma Reply.covers_low {r : Reply} (h : r.entry.baseH = 0) : r.Covers r.region := by
  intro a hlow hhigh
  have hL : r.region.start = r.entry.baseL ∧ r.region.size = r.entry.lengthL := ⟨rfl, rfl⟩
  rw [hL.1] at hlow
  rw [hL.1, hL.2] at hhigh
  have hbase : r.base = r.entry.baseL.toNat := by simp [Reply.base, h]
  rw [hbase, Reply.length]
  omega

lemma Reply.Covers.low {r : Reply} {x : RamRegionInfo} (h : r.Covers x) (hx : x.size ≠ 0) :
    r.entry.baseH = 0 := by
  have hpos : 0 < x.size.toNat := by
    rw [Nat.pos_iff_ne_zero]
    exact fun hz => hx (BitVec.eq_of_toNat_eq hz)
  have hle := (h x.start.toNat le_rfl (by omega)).1
  have hstart := x.start.isLt
  apply BitVec.eq_of_toNat_eq
  rw [Reply.base] at hle
  simp only [BitVec.ofNat_eq_ofNat, BitVec.toNat_ofNat, Nat.zero_mod]
  omega

/-- Each region recorded is usable memory exactly if, for each usable entry at 4 GiB or above
whose lower words are kept, these words happen to name usable memory below. -/
theorem regions_are_usable_iff (bios : Bios) (b : BootInfo) (n : Nat) :
    (∀ x ∈ (detectMemory bios b n).bootInfo.regions,
        ∃ r ∈ (detectMemory bios b n).heard, r.usable = true ∧ r.Covers x) ↔
      ∀ r ∈ (detectMemory bios b n).heard, r.usable = true → r.entry.baseH ≠ 0 →
        r.entry.lengthL ≠ 0 →
          ∃ r' ∈ (detectMemory bios b n).heard, r'.usable = true ∧ r'.entry.baseH = 0 ∧
            r'.Covers r.region := by
  rw [detectMemory_regions]
  constructor
  · intro h r hr hu _ hsize
    have hmem : r.region ∈
        ((detectMemory bios b n).heard.filter Reply.usable).map Reply.region :=
      List.mem_map_of_mem (List.mem_filter.mpr ⟨hr, hu⟩)
    obtain ⟨r', hr', hu', hcover⟩ := h _ hmem
    exact ⟨r', hr', hu', hcover.low hsize, hcover⟩
  · intro h x hx
    obtain ⟨r, hmem, rfl⟩ := List.mem_map.mp hx
    obtain ⟨hr, hu⟩ := List.mem_filter.mp hmem
    by_cases hbase : r.entry.baseH = 0
    · exact ⟨r, hr, hu, Reply.covers_low hbase⟩
    · by_cases hsize : r.entry.lengthL = 0
      · refine ⟨r, hr, hu, fun a hlow hhigh => ?_⟩
        have hzero : r.region.size.toNat = 0 := by simp [Reply.region, hsize]
        omega
      · obtain ⟨r', hr', hu', -, hcover⟩ := h r hr hu hbase hsize
        exact ⟨r', hr', hu', hcover⟩

/-- Memory at 4 GiB is recorded as memory at address 0, over what is reserved there. -/
theorem high_memory_recorded_low :
    ¬ ∀ x ∈ (detectMemory (biosOf [lowMemory, highMemory]) .zeroed 2).bootInfo.regions,
      ∃ r ∈ (detectMemory (biosOf [lowMemory, highMemory]) .zeroed 2).heard,
        r.usable = true ∧ r.Covers x := by
  intro h
  have hregions : (detectMemory (biosOf [lowMemory, highMemory]) .zeroed 2).bootInfo.regions =
      [⟨0, 0x9FC00#32⟩, ⟨0, 0x80000000#32⟩] := by decide
  have hheard : (detectMemory (biosOf [lowMemory, highMemory]) .zeroed 2).heard =
      [lowMemory.reply 1, highMemory.reply 0] := by decide
  obtain ⟨r, hr, -, hcover⟩ := h ⟨0, 0x80000000#32⟩ (by simp [hregions])
  have hbyte := hcover 0xA0000 (by decide) (by decide)
  rw [hheard] at hr
  rcases List.mem_cons.mp hr with rfl | hr
  · exact absurd hbyte (by decide)
  · obtain rfl := List.mem_singleton.mp hr
    exact absurd hbyte (by decide)

/-- After `k` turns the loop has ended and `boot_info` holds the first usable entries, as
many as the array has room for; no index outside the array was written. -/
structure MapComplete (bios : Bios) (b : BootInfo) (es : List MapEntry) (k : Nat) : Prop where
  ended : (detectMemory bios b k).exit = some .ok
  count : (detectMemory bios b k).bootInfo.count =
    min (es.filter MapEntry.usable).length bootRamRegionMax
  regions : (detectMemory bios b k).bootInfo.regions.map (fun x => (x.start.toNat, x.size.toNat)) =
    ((es.filter MapEntry.usable).take bootRamRegionMax).map fun e => (e.base, e.length)
  inside : ∀ i ∈ (detectMemory bios b k).stored, i < bootRamRegionMax

/-- The words kept of an entry below 4 GiB are all there is of it, unless it is as long as
that. -/
lemma MapEntry.region_eq_iff {e : MapEntry} (h : e.Below4G) :
    (e.region.start.toNat, e.region.size.toNat) = (e.base, e.length) ↔ e.length < 2 ^ 32 := by
  have hstart : e.region.start = e.entry.baseL := rfl
  have hsize : e.region.size = e.entry.lengthL := rfl
  have hbase : e.base = e.entry.baseH.toNat * 2 ^ 32 + e.entry.baseL.toNat := rfl
  have hlength : e.length = e.entry.lengthH.toNat * 2 ^ 32 + e.entry.lengthL.toNat := rfl
  have hlow := h.1
  have hsizeL := e.entry.lengthL.isLt
  rw [Prod.mk.injEq, hstart, hsize]
  omega

/-- The map is recorded up to the capacity if it has fewer usable entries than the array, and
none of them is the whole space below 4 GiB. -/
theorem map_complete_iff (h : Lists bios es) (hbelow : ∀ e ∈ es, e.Below4G)
    (hkept : ∀ e ∈ es, e.ignored = false) :
    (∃ k, MapComplete bios b es k) ↔
      (es.filter MapEntry.usable).length ≤ bootRamRegionMax - 1 ∧
        ∀ e ∈ es.filter MapEntry.usable, e.length < 2 ^ 32 := by
  have hmax : bootRamRegionMax = 10 := rfl
  have hexit : (detectMemory bios b es.length).exit ≠ none := by
    intro hgoing
    have hlast := (h.goes_on_iff.mp hgoing).1
    have he := List.getLast?_eq_some_getLast h.nonempty
    have hno := hkept _ (List.getLast_mem h.nonempty)
    rw [hlast _ he] at hno
    cases hno
  have hregions := h.regions_ended hexit
  have hcount := congrArg List.length hregions
  rw [BootInfo.regions_length, List.length_map, List.length_take] at hcount
  have hwords : ∀ e ∈ es.filter MapEntry.usable,
      ((e.region.start.toNat, e.region.size.toNat) = (e.base, e.length) ↔ e.length < 2 ^ 32) :=
    fun e he => MapEntry.region_eq_iff (hbelow e (List.mem_of_mem_filter he))
  constructor
  · rintro ⟨k, hk⟩
    have hend : detectMemory bios b k = detectMemory bios b es.length :=
      detectMemory_end (by rw [hk.ended]; simp) hexit
    have hfew : (es.filter MapEntry.usable).length ≤ bootRamRegionMax - 1 := by
      have hk' := hk.count
      rw [hend, hcount] at hk'
      omega
    refine ⟨hfew, fun e he => (hwords e he).mp ?_⟩
    have hk' := hk.regions
    rw [hend, hregions, List.take_of_length_le hfew, List.take_of_length_le (by omega),
      List.map_map] at hk'
    exact List.map_inj_left.mp hk' e he
  · rintro ⟨hfew, hlength⟩
    refine ⟨es.length, (h.ended hexit).1, by omega, ?_, fun i hi => ?_⟩
    · rw [hregions, List.take_of_length_le hfew, List.take_of_length_le (by omega), List.map_map]
      exact List.map_congr_left fun e he => (hwords e he).mpr (hlength e he)
    · rw [detectMemory_stored, List.mem_range] at hi
      omega

/-- A map of one entry is recorded completely. -/
theorem map_complete_low_memory :
    ∃ k, MapComplete (biosOf [lowMemory]) .zeroed [lowMemory] k :=
  (map_complete_iff (serves_biosOf (by simp) (by simp)).lists
    (by decide) (by decide)).mpr ⟨by decide, by decide⟩

/-- Of ten usable entries the last one is lost, though the array has room for it. -/
theorem tenth_region_lost :
    Lists (biosOf (piecesOfMemory 10)) (piecesOfMemory 10) ∧
      (∀ e ∈ piecesOfMemory 10, e.Below4G ∧ e.ignored = false) ∧
      ((piecesOfMemory 10).filter MapEntry.usable).length = 10 ∧
      ¬ ∃ k, MapComplete (biosOf (piecesOfMemory 10)) .zeroed (piecesOfMemory 10) k := by
  refine ⟨(serves_biosOf (by decide) (by decide)).lists, by decide, by decide, ?_⟩
  rintro ⟨k, hk⟩
  have hcount := (detectMemory_count (biosOf (piecesOfMemory 10)) .zeroed k).1
  rw [hk.count] at hcount
  exact absurd hcount (by decide)

end Maps

end OsToyI386
