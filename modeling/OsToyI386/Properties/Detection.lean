import OsToyI386.Properties.MemoryMap

/-!
# Memory detection with any BIOS

What `detect_memory` does is settled by the replies alone, also when they are not those of a
memory map: when the loop ends, how, and what `boot_info` holds then.
-/

namespace OsToyI386

namespace Bios

/-- The replies to the first calls, if the loop goes on until then. -/
def replies (bios : Bios) (n : Nat) : List Reply :=
  (List.range n).map fun k => (bios.call k).2

/-- The regions of the usable entries among the first replies. -/
def usableRegions (bios : Bios) (n : Nat) : List RamRegionInfo :=
  ((bios.replies n).filter Reply.usable).map Reply.region

/-- The reply to the call with a number is none at all, or one that is not ignored and is the
last one, or the array is taken as full with it. -/
def Stops (bios : Bios) (k : Nat) : Prop :=
  (bios.call k).2.signature ≠ smapSignature ∨
    (bios.call k).2.ignored = false ∧
      ((bios.call k).2.contID = 0 ∨
        (bios.usableRegions (k + 1)).length = bootRamRegionMax - 1)

end Bios

section Any

variable {bios : Bios} {b : BootInfo} {k n : Nat}

lemma detectMemory_regions_going (h : (detectMemory bios b n).exit = none) :
    (detectMemory bios b n).bootInfo.regions = bios.usableRegions n := by
  rw [detectMemory_regions, Detect.heard, (detectMemory_going h).1, List.map_map]
  rfl

lemma usableRegions_succ (bios : Bios) (n : Nat) :
    bios.usableRegions (n + 1) =
      bios.usableRegions n ++ ([(bios.call n).2].filter Reply.usable).map Reply.region := by
  unfold Bios.usableRegions Bios.replies
  rw [List.range_succ, List.map_append, List.filter_append, List.map_append]
  rfl

lemma detectMemory_next (h : (detectMemory bios b n).exit = none) :
    (detectMemory bios b (n + 1)).log = (List.range (n + 1)).map bios.call ∧
      (detectMemory bios b (n + 1)).bootInfo.regions = bios.usableRegions (n + 1) ∧
      (detectMemory bios b (n + 1)).exit =
        if (bios.call n).2.signature ≠ smapSignature then some .failed
        else if (bios.call n).2.ignored then none
        else if (bios.call n).2.contID = 0 ∨
          (bios.usableRegions (n + 1)).length = bootRamRegionMax - 1 then some .ok
        else none := by
  obtain ⟨hlog, hcont⟩ := detectMemory_going h
  have hturn : detectMemory bios b (n + 1) = (detectMemory bios b n).turn (bios.call n).2 := by
    rw [detectMemory_turn h, hcont]
    rfl
  have hregions : (detectMemory bios b (n + 1)).bootInfo.regions =
      bios.usableRegions (n + 1) := by
    rw [hturn, Detect.turn_regions, detectMemory_regions_going h, usableRegions_succ]
  refine ⟨?_, hregions, ?_⟩
  · rw [hturn, Detect.turn_log, hlog, hcont, List.range_succ, List.map_append]
    rfl
  · rw [← hregions, BootInfo.regions_length, hturn, Detect.turn_exit, h]

/-- The loop goes on as long as no reply stops it. -/
lemma detectMemory_going_iff :
    (detectMemory bios b n).exit = none ↔ ∀ k < n, ¬ bios.Stops k := by
  induction n with
  | zero => exact ⟨fun _ k hk => absurd hk k.not_lt_zero, fun _ => rfl⟩
  | succ n ih =>
    rw [Nat.forall_lt_succ_right, ← ih]
    by_cases hn : (detectMemory bios b n).exit = none
    · rw [(detectMemory_next hn).2.2]
      unfold Bios.Stops
      by_cases hsig : (bios.call n).2.signature = smapSignature
      · by_cases hign : (bios.call n).2.ignored = true
        · simp [hn, hsig, hign]
        · simp [hn, hsig, hign]
      · simp [hsig]
    · rw [detectMemory_stay hn]
      exact ⟨fun h => absurd h hn, fun h => h.1⟩

lemma detectMemory_untouched (bios : Bios) (b : BootInfo) (n : Nat) {i : Nat}
    (hi : (detectMemory bios b n).bootInfo.count ≤ i) :
    (detectMemory bios b n).bootInfo.ramRegionInfo i = b.ramRegionInfo i := by
  induction n with
  | zero => rfl
  | succ n ih =>
    by_cases hn : (detectMemory bios b n).exit = none
    · rw [detectMemory_turn hn, Detect.turn_bootInfo] at hi ⊢
      split at hi
      · rename_i hu
        have hlt : (detectMemory bios b n).bootInfo.count < i := hi
        rw [if_pos hu, ← ih hlt.le]
        exact Function.update_of_ne hlt.ne' _ _
      · rename_i hu
        rw [if_neg hu]
        exact ih hi
    · rw [detectMemory_stay hn] at hi ⊢
      exact ih hi

end Any

/-- Whatever the BIOS replies, the loop goes on for ever if no reply stops it. Otherwise the
first that does is the last one asked for; it decides between success and failure, and
`boot_info` holds the usable entries up to it, in order and within the array, also after a
failure. -/
theorem detect_memory_with_any_bios (bios : Bios) (b : BootInfo) :
    ((∀ n, (detectMemory bios b n).exit = none) ↔ ∀ k, ¬ bios.Stops k) ∧
      ∀ k, bios.Stops k → (∀ j < k, ¬ bios.Stops j) → ∀ n > k,
        (detectMemory bios b n).exit =
            some (if (bios.call k).2.signature = smapSignature then .ok else .failed) ∧
          (detectMemory bios b n).log = (List.range (k + 1)).map bios.call ∧
          (detectMemory bios b n).bootInfo.regions = bios.usableRegions (k + 1) ∧
          (bios.usableRegions (k + 1)).length ≤ bootRamRegionMax - 1 ∧
          ∀ i ≥ (bios.usableRegions (k + 1)).length,
            (detectMemory bios b n).bootInfo.ramRegionInfo i = b.ramRegionInfo i := by
  constructor
  · constructor
    · intro h k
      exact detectMemory_going_iff.mp (h (k + 1)) k k.lt_succ_self
    · intro h n
      exact detectMemory_going_iff.mpr fun k _ => h k
  intro k hstops hfirst n hn
  have hgoing : (detectMemory bios b k).exit = none := detectMemory_going_iff.mpr hfirst
  obtain ⟨hlog, hregions, hexit⟩ := detectMemory_next hgoing
  have hended : (detectMemory bios b (k + 1)).exit =
      some (if (bios.call k).2.signature = smapSignature then .ok else .failed) := by
    rw [hexit]
    by_cases hsig : (bios.call k).2.signature = smapSignature
    · have hlast := hstops.resolve_left (not_not.mpr hsig)
      rw [if_neg (not_not.mpr hsig), if_neg (by simp [hlast.1]), if_pos hlast.2, if_pos hsig]
    · simp [hsig]
  have hsame : detectMemory bios b n = detectMemory bios b (k + 1) :=
    detectMemory_mono (by rw [hended]; simp) hn
  have hcount := BootInfo.regions_length (detectMemory bios b (k + 1)).bootInfo
  rw [hregions] at hcount
  rw [hsame]
  refine ⟨hended, hlog, hregions, ?_, fun i hi => ?_⟩
  · rw [hcount]
    exact (detectMemory_count bios b (k + 1)).1
  · exact detectMemory_untouched bios b (k + 1) (hcount ▸ hi)

end OsToyI386
