import OsToyI386.Tools.ListRefinement

/-!
# Sequences of list calls

A memory of list headers and nodes goes through any sequence of calls, each of which
keeps the contract of `tools/list.c`: a list is initialised while it is fresh or empty,
an inserted node is in no list, a popped node is in the list named. Beside the heap the
memory carries the sequence that each list stands for.
-/

namespace OsToyI386
set_option linter.unusedSectionVars false
open Lib

variable {ν κ : Type*} [DecidableEq ν] [DecidableEq κ]

/-- The mutators of `tools/list.c`, without the list they are called on. -/
inductive ListCall (ν : Type*)
  | init
  | insertFirst (n : ν)
  | insertLast (n : ν)
  | popFirst
  | popLast
  | pop (n : ν)

namespace ListCall

/-- The call on the heap, with the node it returns. -/
def exec (h : Heap ν κ) (l : κ) : ListCall ν → Heap ν κ × Option ν
  | init => (listInit h l, none)
  | insertFirst n => (listInsertFirst h l n, none)
  | insertLast n => (listInsertLast h l n, none)
  | popFirst => listPopFirst h l
  | popLast => listPopLast h l
  | pop n => listPop h l n

/-- What the call means for a sequence: nil, cons, snoc, uncons, unsnoc and delete. -/
def onSeq (xs : List ν) : ListCall ν → List ν × Option ν
  | init => ([], none)
  | insertFirst n => (n :: xs, none)
  | insertLast n => (xs ++ [n], none)
  | popFirst => (xs.tail, xs.head?)
  | popLast => (xs.dropLast, xs.getLast?)
  | pop n => (xs.erase n, some n)

end ListCall

/-- A heap together with the lists initialised so far and the sequences they stand for. -/
structure ListMemory (ν κ : Type*) where
  heap : Heap ν κ
  live : Set κ
  seq : κ → List ν

namespace ListMemory

/-- The caller's side of a call. -/
def Allowed (m : ListMemory ν κ) (l : κ) : ListCall ν → Prop
  | .init => m.seq l = []
  | .insertFirst n => l ∈ m.live ∧ ∀ k, n ∉ m.seq k
  | .insertLast n => l ∈ m.live ∧ ∀ k, n ∉ m.seq k
  | .popFirst => l ∈ m.live
  | .popLast => l ∈ m.live
  | .pop n => l ∈ m.live ∧ n ∈ m.seq l

/-- An allowed call: the code acts on the heap, its meaning on the sequence. -/
def Step (m : ListMemory ν κ) (call : κ × ListCall ν) (m' : ListMemory ν κ) : Prop :=
  m.Allowed call.1 call.2 ∧ m' =
    { heap := (call.2.exec m.heap call.1).1
      live := insert call.1 m.live
      seq := Function.update m.seq call.1 (call.2.onSeq (m.seq call.1)).1 }

/-- No header is initialised yet; headers and nodes hold anything. -/
def uninit (h : Heap ν κ) : ListMemory ν κ := ⟨h, ∅, fun _ => []⟩

end ListMemory

/-- The heap shows the sequence `xs` under header `l`, walked from either end. -/
structure ShowsSeq (h : Heap ν κ) (l : κ) (xs : List ν) : Prop where
  forward : ∀ k, xs.length ≤ k → follow (fun n => (h.node n).next) k (h.list l).frist = xs
  backward : ∀ k, xs.length ≤ k → follow (fun n => (h.node n).pre) k (h.list l).last = xs.reverse
  count : (h.list l).count = xs.length
  frist_null : (h.list l).frist = none ↔ xs = []
  last_null : (h.list l).last = none ↔ xs = []
  distinct : xs.Nodup

namespace Represents

variable {h : Heap ν κ} {live : Set κ} {σ : κ → List ν} {l : κ} {n m : ν}

lemma showsSeq (hr : Represents h live σ) (hl : l ∈ live) : ShowsSeq h l (σ l) := by
  constructor
  · intro k hk
    have hw := (hr.linked l hl).follow_next [] (σ l) k
    rwa [← hr.frist_eq hl, List.take_of_length_le hk] at hw
  · intro k hk
    have hw := (hr.linked l hl).follow_pre k
    rwa [← hr.last_eq hl, List.take_of_length_le (by simpa using hk)] at hw
  · exact hr.count_eq hl
  · rw [hr.frist_eq hl, List.head?_eq_none_iff]
  · rw [hr.last_eq hl, List.getLast?_eq_none_iff]
  · exact hr.apart.nodup l

lemma insertLast_frame (hr : Represents h live σ) (hl : l ∈ live) (hn : n ∉ σ l)
    (hm : m ∉ σ l) (hmn : m ≠ n) : (listInsertLast h l n).node m = h.node m := by
  have hlast : ∀ a, a ∉ σ l → (h.list l).last ≠ some a := by
    intro a ha he
    rw [hr.last_eq hl] at he
    exact ha (List.mem_of_getLast? he)
  rw [listInsertLast_node h l n (hr.last_eq_none hl) (hlast n hn), if_neg hmn,
    if_neg (hlast m hm)]

lemma insertFirst_frame (hr : Represents h live σ) (hl : l ∈ live) (hn : n ∉ σ l)
    (hm : m ∉ σ l) (hmn : m ≠ n) : (listInsertFirst h l n).node m = h.node m := by
  have hfrist : ∀ a, a ∉ σ l → (h.list l).frist ≠ some a := by
    intro a ha he
    rw [hr.frist_eq hl] at he
    exact ha (List.mem_of_head? he)
  rw [listInsertFirst_node h l n (hr.frist_eq_none hl) (hfrist n hn), if_neg hmn,
    if_neg (hfrist m hm)]

lemma pop_frame (hr : Represents h live σ) (hl : l ∈ live) (hn : n ∈ σ l) (hm : m ∉ σ l) :
    (listPop h l n).1.node m = h.node m := by
  obtain ⟨ys, zs, hys, hcut, -⟩ := List.exists_erase_eq hn
  have hnode := hr.node_eq hl hcut
  rw [hcut] at hm
  have hp : (h.node n).pre ≠ some n := by
    rw [hnode]
    exact fun he => hys (List.mem_of_getLast? he)
  have hmn : m ≠ n := fun he => hm (by simp [he])
  have h1 : ys.getLast? ≠ some m := fun he => hm (by simp [List.mem_of_getLast? he])
  have h2 : zs.head? ≠ some m := fun he => hm (by simp [List.mem_of_head? he])
  simp [listPop_node h l n hp, hmn, hnode, h1, h2]

end Represents

/-- What a call does to its own list and to the rest of memory. -/
structure CallSpec (m : ListMemory ν κ) (l : κ) (c : ListCall ν) (m' : ListMemory ν κ) : Prop where
  returns : (c.exec m.heap l).2 = (c.onSeq (m.seq l)).2
  cleared : ∀ n ∈ m.seq l, n ∉ m'.seq l → m'.heap.node n = ⟨none, none⟩
  headers : ∀ k, k ≠ l → m'.heap.list k = m.heap.list k
  nodes : ∀ n, n ∉ m.seq l → n ∉ m'.seq l → m'.heap.node n = m.heap.node n

namespace ListMemory

variable {m m' : ListMemory ν κ} {l : κ} {c : ListCall ν}

/-- The heap holds the sequences the memory stands for. -/
abbrev Sound (m : ListMemory ν κ) : Prop := Represents m.heap m.live m.seq

lemma uninit_sound (h : Heap ν κ) : (uninit h : ListMemory ν κ).Sound := by
  refine ⟨⟨fun _ => List.nodup_nil, ?_⟩, ?_, ?_, fun _ _ => rfl⟩
  · intro i j a ha
    simp [uninit] at ha
  · intro l hl
    simp [uninit] at hl
  · intro l hl
    simp [uninit] at hl

lemma pop_spec {n : ν} (hs : m.Sound) (hl : l ∈ m.live) (hn : n ∈ m.seq l)
    (hexec : c.exec m.heap l = listPop m.heap l n)
    (hseq : c.onSeq (m.seq l) = ((m.seq l).erase n, some n))
    (hm' : m' = ⟨(c.exec m.heap l).1, insert l m.live,
      Function.update m.seq l (c.onSeq (m.seq l)).1⟩) :
    m'.Sound ∧ CallSpec m l c m' := by
  subst hm'
  have hother : ∀ a ∈ m.seq l, a ≠ n → a ∈ (m.seq l).erase n := fun a ha hne =>
    (List.mem_erase_of_ne hne).mpr ha
  refine ⟨?_, ?_, ?_, ?_, ?_⟩
  · simp only [Sound, hexec, hseq, Set.insert_eq_of_mem hl]
    exact hs.pop hl hn
  · rw [hexec, hseq]
    rfl
  · intro a ha hna
    simp only [hseq, Function.update_self] at hna
    by_cases han : a = n
    · subst han
      simp only [hexec]
      exact hs.pop_node hl ha
    · exact absurd (hother a ha han) hna
  · intro k hk
    simp only [hexec]
    rw [listPop_list, if_neg hk]
  · intro a ha _
    simp only [hexec]
    exact hs.pop_frame hl hn ha

lemma empty_spec (hs : m.Sound) (hl : l ∈ m.live) (hexec : c.exec m.heap l = (m.heap, none))
    (hseq : c.onSeq (m.seq l) = (m.seq l, none))
    (hm' : m' = ⟨(c.exec m.heap l).1, insert l m.live,
      Function.update m.seq l (c.onSeq (m.seq l)).1⟩) :
    m'.Sound ∧ CallSpec m l c m' := by
  have hsame : m' = m := by rw [hm', hexec, hseq, Set.insert_eq_of_mem hl, Function.update_eq_self]
  rw [hsame]
  exact ⟨hs, by rw [hexec, hseq], fun _ hn hn' => absurd hn hn', fun _ _ => rfl, fun _ _ _ => rfl⟩

lemma insert_spec {n : ν} {h' : Heap ν κ} {xs : List ν} (hl : l ∈ m.live)
    (hexec : c.exec m.heap l = (h', none)) (hseq : c.onSeq (m.seq l) = (xs, none))
    (hxs : ∀ a, a ∈ xs ↔ a = n ∨ a ∈ m.seq l)
    (hs' : Represents h' m.live (Function.update m.seq l xs))
    (hlist : ∀ k, k ≠ l → h'.list k = m.heap.list k)
    (hnode : ∀ a, a ∉ m.seq l → a ≠ n → h'.node a = m.heap.node a)
    (hm' : m' = ⟨(c.exec m.heap l).1, insert l m.live,
      Function.update m.seq l (c.onSeq (m.seq l)).1⟩) :
    m'.Sound ∧ CallSpec m l c m' := by
  rw [hexec, hseq, Set.insert_eq_of_mem hl] at hm'
  subst hm'
  refine ⟨hs', by rw [hexec, hseq], fun a ha hna => ?_, hlist, fun a ha hna => ?_⟩
  · simp only [Function.update_self] at hna
    exact absurd ((hxs a).mpr (Or.inr ha)) hna
  · simp only [Function.update_self] at hna
    exact hnode a ha fun he => hna ((hxs a).mpr (Or.inl he))

/-- Every allowed call keeps the representation and meets its specification. -/
lemma step_spec (hs : m.Sound) (hstep : m.Step (l, c) m') : m'.Sound ∧ CallSpec m l c m' := by
  obtain ⟨hallowed, hm'⟩ := hstep
  cases c with
  | init =>
    subst hm'
    refine ⟨hs.init hallowed, rfl, ?_, ?_, ?_⟩
    · intro n hn
      rw [show m.seq l = [] from hallowed] at hn
      simp at hn
    · intro k hk
      simp [ListCall.exec, listInit, hk]
    · intro n _ _
      rfl
  | insertFirst n =>
    obtain ⟨hl, hn⟩ := hallowed
    refine insert_spec (n := n) hl rfl rfl (by simp) (hs.insertFirst hl hn) ?_ ?_ hm'
    · intro k hk
      rw [listInsertFirst_list _ _ _ (hs.frist_eq_none hl), if_neg hk]
    · intro a ha han
      exact hs.insertFirst_frame hl (hn l) ha han
  | insertLast n =>
    obtain ⟨hl, hn⟩ := hallowed
    refine insert_spec (n := n) hl rfl rfl (by simp [or_comm]) (hs.insertLast hl hn) ?_ ?_ hm'
    · intro k hk
      rw [listInsertLast_list _ _ _ (hs.last_eq_none hl), if_neg hk]
    · intro a ha han
      exact hs.insertLast_frame hl (hn l) ha han
  | pop n => exact pop_spec hs hallowed.1 hallowed.2 rfl rfl hm'
  | popFirst =>
    cases hσ : m.seq l with
    | cons n xs =>
      exact pop_spec hs hallowed (by simp [hσ]) (hs.popFirst_cons hallowed hσ)
        (by simp [ListCall.onSeq, hσ]) hm'
    | nil =>
      exact empty_spec hs hallowed (hs.popFirst_nil hallowed hσ)
        (by simp [ListCall.onSeq, hσ]) hm'
  | popLast =>
    rcases List.eq_nil_or_concat (m.seq l) with hσ | ⟨xs, n, hσ⟩
    · exact empty_spec hs hallowed (hs.popLast_nil hallowed hσ)
        (by simp [ListCall.onSeq, hσ]) hm'
    · rw [List.concat_eq_append] at hσ
      have hnd : (xs ++ [n]).Nodup := hσ ▸ hs.apart.nodup l
      have hnx : n ∉ xs := fun hm => (List.nodup_append.mp hnd).2.2 n hm n (by simp) rfl
      exact pop_spec hs hallowed (by simp [hσ]) (hs.popLast_snoc hallowed hσ)
        (by simp [ListCall.onSeq, hσ, List.erase_append_right _ hnx]) hm'

end ListMemory

/-- From any memory, after any sequence of allowed calls, every initialised list shows one
sequence of distinct nodes from both ends, no node stands in two of them, and whatever
call comes next acts on its own list as on the sequence and changes no other list. -/
theorem list_refines_sequence (h₀ : Heap ν κ) (calls : List (κ × ListCall ν))
    (m : ListMemory ν κ) (hrun : Run ListMemory.Step (ListMemory.uninit h₀) calls m) :
    (∀ l ∈ m.live, ShowsSeq m.heap l (m.seq l)) ∧ Apart m.seq ∧
      ∀ l c m', m.Step (l, c) m' → CallSpec m l c m' := by
  have hs : m.Sound := hrun.invariant
    (fun s call t hs hstep => (ListMemory.step_spec hs hstep).1) (ListMemory.uninit_sound h₀)
  exact ⟨fun l hl => hs.showsSeq hl, hs.apart, fun l c m' hstep =>
    (ListMemory.step_spec hs hstep).2⟩

/-- Two nodes are inserted into a list of garbage memory and the first is taken again. -/
theorem list_refines_sequence_run :
    ∃ m : ListMemory Nat Nat, m.seq 0 = [6] ∧ ShowsSeq m.heap 0 (m.seq 0) := by
  have hfresh : ∀ n k, n ∉ Function.update (fun _ : Nat => ([] : List Nat)) 0 [] k := by
    intro n k
    simp [Function.update_apply]
  have hrun : Run ListMemory.Step
      (ListMemory.uninit ⟨fun _ => ⟨some 7, none⟩, fun _ => ⟨none, some 3, 9⟩⟩)
      [(0, .init), (0, .insertLast 5), (0, .insertLast 6), (0, .popFirst)] _ :=
    .cons ⟨rfl, rfl⟩ (.cons ⟨⟨by simp, hfresh 5⟩, rfl⟩ (.cons ⟨⟨by simp, by
      intro k
      by_cases hk : k = 0 <;> simp [ListCall.onSeq, ListMemory.uninit, hk]⟩, rfl⟩
      (.cons ⟨by simp [ListMemory.Allowed], rfl⟩ (.nil _))))
  exact ⟨_, rfl, (list_refines_sequence _ _ _ hrun).1 0 (by simp)⟩

end OsToyI386
