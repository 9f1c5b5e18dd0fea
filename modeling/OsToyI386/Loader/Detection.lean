import OsToyI386.Loader.Loader16
import Mathlib.Tactic.Ring
import Mathlib.Data.List.Basic

/-!
# The loop over the memory map

What each turn of the loop does to each variable, and from it what `boot_info` holds after
any number of turns: the usable entries heard so far, in order, at most one less than fit.
-/

namespace OsToyI386

namespace Reply

/-- The entry is one that the loop records. -/
def usable (r : Reply) : Bool :=
  decide (r.signature = smapSignature) && !r.ignored && decide (r.entry.type = 1)

/-- Where the entry begins. -/
def base (r : Reply) : Nat := r.entry.baseH.toNat * 2 ^ 32 + r.entry.baseL.toNat

def length (r : Reply) : Nat := r.entry.lengthH.toNat * 2 ^ 32 + r.entry.lengthL.toNat

/-- The bytes of the region lie inside the entry. -/
def Covers (r : Reply) (x : RamRegionInfo) : Prop :=
  ∀ a, x.start.toNat ≤ a → a < x.start.toNat + x.size.toNat → r.base ≤ a ∧ a < r.base + r.length

end Reply

namespace BootInfo

lemma regions_record (b : BootInfo) (x : RamRegionInfo) :
    (b.record x).regions = b.regions ++ [x] := by
  have hold : (List.range b.count).map (b.record x).ramRegionInfo = b.regions := by
    apply List.map_congr_left
    intro i hi
    have hne : i ≠ b.count := (List.mem_range.mp hi).ne
    simp [record, hne]
  have hcount : (b.record x).count = b.count + 1 := rfl
  rw [regions, hcount, List.range_succ, List.map_append, hold]
  simp [record]

lemma regions_length (b : BootInfo) : b.regions.length = b.count := by simp [regions]

end BootInfo

namespace Detect

variable (s : Detect) (r : Reply)

/-- The replies so far. -/
def heard (s : Detect) : List Reply := s.log.map Prod.snd

lemma turn_log : (s.turn r).log = s.log ++ [(s.contID, r)] := by
  unfold turn
  dsimp only
  split_ifs <;> rfl

lemma turn_contID : (s.turn r).contID = r.contID := by
  unfold turn
  dsimp only
  split_ifs <;> rfl

lemma turn_bootInfo :
    (s.turn r).bootInfo = if r.usable then s.bootInfo.record r.region else s.bootInfo := by
  unfold turn
  dsimp only
  split_ifs <;> simp_all [Reply.usable]

lemma turn_stored :
    (s.turn r).stored = if r.usable then s.stored ++ [s.bootInfo.count] else s.stored := by
  unfold turn
  dsimp only
  split_ifs <;> simp_all [Reply.usable]

lemma turn_exit :
    (s.turn r).exit =
      if r.signature ≠ smapSignature then some .failed
      else if r.ignored then s.exit
      else if r.contID = 0 ∨ (s.turn r).bootInfo.count = bootRamRegionMax - 1 then some .ok
      else s.exit := by
  unfold turn
  dsimp only
  split_ifs <;> simp_all

lemma turn_heard : (s.turn r).heard = s.heard ++ [r] := by
  rw [heard, turn_log, List.map_append]
  rfl

lemma turn_regions :
    (s.turn r).bootInfo.regions =
      s.bootInfo.regions ++ ([r].filter Reply.usable).map Reply.region := by
  rw [turn_bootInfo]
  by_cases hr : r.usable = true
  · simp [hr, BootInfo.regions_record]
  · simp [hr]

end Detect

section Loop

variable (bios : Bios) (b : BootInfo) {n k : Nat}

/-- The continuation value that the call with a number is made with. -/
def Bios.handed (bios : Bios) : Nat → BitVec 32
  | 0 => 0
  | k + 1 => (bios k (bios.handed k)).contID

/-- The call with a number, as long as the loop goes on. -/
def Bios.call (bios : Bios) (k : Nat) : BitVec 32 × Reply :=
  (bios.handed k, bios k (bios.handed k))

variable {bios b}

lemma detectMemory_turn (h : (detectMemory bios b n).exit = none) :
    detectMemory bios b (n + 1) =
      (detectMemory bios b n).turn (bios n (detectMemory bios b n).contID) := if_pos h

lemma detectMemory_stay (h : (detectMemory bios b n).exit ≠ none) :
    detectMemory bios b (n + 1) = detectMemory bios b n := if_neg h

lemma detectMemory_going (h : (detectMemory bios b n).exit = none) :
    (detectMemory bios b n).log = (List.range n).map bios.call ∧
      (detectMemory bios b n).contID = bios.handed n := by
  induction n with
  | zero => exact ⟨rfl, rfl⟩
  | succ n ih =>
    by_cases hn : (detectMemory bios b n).exit = none
    · obtain ⟨hlog, hcont⟩ := ih hn
      rw [detectMemory_turn hn, Detect.turn_log, Detect.turn_contID, hlog, hcont, List.range_succ,
        List.map_append]
      exact ⟨rfl, rfl⟩
    · rw [detectMemory_stay hn] at h
      exact absurd h hn

/-- When the loop has ended, one turn ended it and nothing has changed since. -/
lemma detectMemory_ended (h : (detectMemory bios b n).exit ≠ none) :
    ∃ k, k < n ∧ (detectMemory bios b k).exit = none ∧
      detectMemory bios b n = (detectMemory bios b k).turn (bios.call k).2 := by
  induction n with
  | zero => exact absurd rfl h
  | succ n ih =>
    by_cases hn : (detectMemory bios b n).exit = none
    · refine ⟨n, n.lt_succ_self, hn, ?_⟩
      rw [detectMemory_turn hn, (detectMemory_going hn).2]
      rfl
    · rw [detectMemory_stay hn] at h ⊢
      obtain ⟨k, hk, hgoing, hturn⟩ := ih h
      exact ⟨k, hk.trans n.lt_succ_self, hgoing, hturn⟩

lemma detectMemory_log (bios : Bios) (b : BootInfo) (n : Nat) :
    ∃ k, k ≤ n ∧ (detectMemory bios b n).log = (List.range k).map bios.call ∧
      ((detectMemory bios b n).exit = none → k = n) := by
  by_cases hn : (detectMemory bios b n).exit = none
  · exact ⟨n, le_rfl, (detectMemory_going hn).1, fun _ => rfl⟩
  · obtain ⟨k, hk, hgoing, hturn⟩ := detectMemory_ended hn
    obtain ⟨hlog, hcont⟩ := detectMemory_going hgoing
    refine ⟨k + 1, hk, ?_, fun h => absurd h hn⟩
    rw [hturn, Detect.turn_log, hlog, hcont, List.range_succ, List.map_append]
    rfl

/-- The loop invariant: `boot_info` holds the usable entries heard, in order. -/
theorem detectMemory_regions (bios : Bios) (b : BootInfo) (n : Nat) :
    (detectMemory bios b n).bootInfo.regions =
      ((detectMemory bios b n).heard.filter Reply.usable).map Reply.region := by
  induction n with
  | zero => rfl
  | succ n ih =>
    by_cases hn : (detectMemory bios b n).exit = none
    · rw [detectMemory_turn hn, Detect.turn_regions, Detect.turn_heard, ih, List.filter_append,
        List.map_append]
    · rw [detectMemory_stay hn, ih]

lemma detectMemory_stored (bios : Bios) (b : BootInfo) (n : Nat) :
    (detectMemory bios b n).stored = List.range (detectMemory bios b n).bootInfo.count := by
  induction n with
  | zero => rfl
  | succ n ih =>
    by_cases hn : (detectMemory bios b n).exit = none
    · rw [detectMemory_turn hn, Detect.turn_stored, Detect.turn_bootInfo, ih]
      split
      · exact List.range_succ.symm
      · rfl
    · rw [detectMemory_stay hn, ih]

/-- One entry of the array stays unused: the loop ends when `count` reaches the last one. -/
lemma detectMemory_count (bios : Bios) (b : BootInfo) (n : Nat) :
    (detectMemory bios b n).bootInfo.count ≤ bootRamRegionMax - 1 ∧
      ((detectMemory bios b n).exit = none →
        (detectMemory bios b n).bootInfo.count < bootRamRegionMax - 1) := by
  induction n with
  | zero =>
    have hzero : (detectMemory bios b 0).bootInfo.count = 0 := rfl
    rw [hzero]
    exact ⟨by decide, fun _ => by decide⟩
  | succ n ih =>
    by_cases hn : (detectMemory bios b n).exit = none
    · have hlt := ih.2 hn
      rw [detectMemory_turn hn]
      generalize hr : bios n (detectMemory bios b n).contID = r
      have hle : ((detectMemory bios b n).turn r).bootInfo.count ≤ bootRamRegionMax - 1 := by
        rw [Detect.turn_bootInfo]
        split
        · exact hlt
        · exact hlt.le
      refine ⟨hle, fun hexit => ?_⟩
      by_cases hu : r.usable = true
      · rw [Detect.turn_exit] at hexit
        have hsig : r.signature = smapSignature ∧ r.ignored = false := by
          simp only [Reply.usable, Bool.and_eq_true, decide_eq_true_eq, Bool.not_eq_true'] at hu
          exact hu.1
        simp only [hsig.1, hsig.2, ne_eq, not_true_eq_false, if_false, Bool.false_eq_true] at hexit
        split at hexit
        · cases hexit
        · rename_i hno
          exact lt_of_le_of_ne hle (not_or.mp hno).2
      · rw [Detect.turn_bootInfo, if_neg hu]
        exact hlt
    · rw [detectMemory_stay hn]
      exact ih

/-- While the loop goes on, every reply was right, and none of the entries looked at was
the last one. -/
lemma detectMemory_heard {r : Reply} (h : (detectMemory bios b n).exit = none)
    (hr : r ∈ (detectMemory bios b n).heard) :
    r.signature = smapSignature ∧ (r.ignored = true ∨ r.contID ≠ 0) := by
  induction n with
  | zero => cases hr
  | succ n ih =>
    by_cases hn : (detectMemory bios b n).exit = none
    · rw [detectMemory_turn hn] at h hr
      rw [Detect.turn_heard] at hr
      rcases List.mem_append.mp hr with hold | hnew
      · exact ih hn hold
      · obtain rfl := List.mem_singleton.mp hnew
        rw [Detect.turn_exit] at h
        split_ifs at h with hsig hign hstop
        · exact ⟨not_not.mp hsig, Or.inl hign⟩
        · exact ⟨not_not.mp hsig, Or.inr (not_or.mp hstop).1⟩
    · rw [detectMemory_stay hn] at h
      exact absurd h hn

end Loop

end OsToyI386
