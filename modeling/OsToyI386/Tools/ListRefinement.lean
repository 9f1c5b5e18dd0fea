import OsToyI386.Lib.Runs
import OsToyI386.Tools.List
import Mathlib.Data.Set.Insert

/-!
# The intrusive list refines a finite sequence

`Represents h live σ` says that the heap holds, for every initialised list header, one
sequence of nodes, and that no node stands twice. Each operation of the list acts on its
own sequence as the sequence operation of the same name and leaves the others alone.
-/

namespace OsToyI386
set_option linter.unusedSectionVars false
set_option linter.unusedSimpArgs false
open Lib

variable {ν κ : Type*} [DecidableEq ν] [DecidableEq κ]

/-- The heap holds the sequences `σ` under the headers in `live`. -/
structure Represents (h : Heap ν κ) (live : Set κ) (σ : κ → List ν) : Prop where
  apart : Apart σ
  head : ∀ l ∈ live, h.list l = ⟨(σ l).head?, (σ l).getLast?, (σ l).length⟩
  linked : ∀ l ∈ live, Linked h.node (σ l)
  fresh : ∀ l, l ∉ live → σ l = []

namespace Represents

variable {h h' : Heap ν κ} {live : Set κ} {σ : κ → List ν} {l : κ} {n : ν}

lemma replace (hr : Represents h live σ) (hl : l ∈ live) {xs : List ν}
    (hap : Apart (Function.update σ l xs))
    (hhead : h'.list l = ⟨xs.head?, xs.getLast?, xs.length⟩)
    (hother : ∀ k, k ≠ l → h'.list k = h.list k)
    (hlinked : Linked h'.node xs)
    (hnodes : ∀ k, k ≠ l → ∀ m ∈ σ k, h'.node m = h.node m) :
    Represents h' live (Function.update σ l xs) := by
  constructor
  · exact hap
  · intro k hk
    by_cases hkl : k = l
    · subst hkl
      simpa using hhead
    · simp only [Function.update_of_ne hkl, hother k hkl]
      exact hr.head k hk
  · intro k hk
    by_cases hkl : k = l
    · subst hkl
      simpa using hlinked
    · simp only [Function.update_of_ne hkl]
      exact (hr.linked k hk).congr (hnodes k hkl)
  · intro k hk
    have hkl : k ≠ l := fun he => hk (he ▸ hl)
    rw [Function.update_of_ne hkl]
    exact hr.fresh k hk

lemma frist_eq (hr : Represents h live σ) (hl : l ∈ live) :
    (h.list l).frist = (σ l).head? := by rw [hr.head l hl]

lemma last_eq (hr : Represents h live σ) (hl : l ∈ live) :
    (h.list l).last = (σ l).getLast? := by rw [hr.head l hl]

lemma count_eq (hr : Represents h live σ) (hl : l ∈ live) :
    (h.list l).count = (σ l).length := by rw [hr.head l hl]

lemma toList_eq (hr : Represents h live σ) (hl : l ∈ live) : h.toList l = σ l := by
  rw [Heap.toList, hr.frist_eq hl, hr.count_eq hl, Int.toNat_natCast]
  have hw := (hr.linked l hl).follow_next [] (σ l) (σ l).length
  rwa [List.take_length] at hw

lemma count_eq_zero (hr : Represents h live σ) (hl : l ∈ live) :
    (h.list l).count = 0 ↔ σ l = [] := by
  rw [hr.count_eq hl]
  simp

lemma setNode (hr : Represents h live σ) (hn : ∀ j, n ∉ σ j) (x : ListNode ν) :
    Represents (h.setNode n x) live σ := by
  refine ⟨hr.apart, hr.head, fun k hk => (hr.linked k hk).congr ?_, hr.fresh⟩
  intro m hm
  have hmn : m ≠ n := fun he => hn k (he ▸ hm)
  simp [Heap.setNode, hmn]

end Represents

section ClosedForms

variable (h : Heap ν κ) (l : κ) (n : ν)

lemma listInsertLast_list (hc : (h.list l).count = 0 ↔ (h.list l).last = none) (k : κ) :
    (listInsertLast h l n).list k =
      if k = l then ⟨if (h.list l).last = none then some n else (h.list l).frist, some n,
        (h.list l).count + 1⟩ else h.list k := by
  by_cases hk : k = l <;> by_cases hz : (h.list l).last = none <;>
    simp [listInsertLast, hc, hz, hk]

lemma listInsertLast_node (hc : (h.list l).count = 0 ↔ (h.list l).last = none)
    (hn : (h.list l).last ≠ some n) (m : ν) :
    (listInsertLast h l n).node m =
      if m = n then ⟨(h.list l).last, none⟩
      else if (h.list l).last = some m then ⟨(h.node m).pre, some n⟩ else h.node m := by
  by_cases hm : m = n
  · subst hm
    by_cases hz : (h.list l).last = none <;> simp [listInsertLast, hc, hz, hn]
  · by_cases hz : (h.list l).last = none <;> simp [listInsertLast, hc, hz, hm, Ne.symm hm]

lemma listInsertFirst_list (hc : (h.list l).count = 0 ↔ (h.list l).frist = none) (k : κ) :
    (listInsertFirst h l n).list k =
      if k = l then ⟨some n, if (h.list l).frist = none then some n else (h.list l).last,
        (h.list l).count + 1⟩ else h.list k := by
  by_cases hk : k = l <;> by_cases hz : (h.list l).frist = none <;>
    simp [listInsertFirst, hc, hz, hk]

lemma listInsertFirst_node (hc : (h.list l).count = 0 ↔ (h.list l).frist = none)
    (hn : (h.list l).frist ≠ some n) (m : ν) :
    (listInsertFirst h l n).node m =
      if m = n then ⟨none, (h.list l).frist⟩
      else if (h.list l).frist = some m then ⟨some n, (h.node m).next⟩ else h.node m := by
  by_cases hm : m = n
  · subst hm
    by_cases hz : (h.list l).frist = none <;> simp [listInsertFirst, hc, hz, hn]
  · by_cases hz : (h.list l).frist = none <;> simp [listInsertFirst, hc, hz, hm, Ne.symm hm]

lemma listPop_list (k : κ) :
    (listPop h l n).1.list k =
      if k = l then ⟨if (h.list l).frist = some n then (h.node n).next else (h.list l).frist,
        if (h.list l).last = some n then (h.node n).pre else (h.list l).last,
        (h.list l).count - 1⟩ else h.list k := by
  by_cases hk : k = l <;> by_cases hf : (h.list l).frist = some n <;>
    by_cases hl : (h.list l).last = some n <;> simp [listPop, hk, hf, hl]

lemma listPop_node (hp : (h.node n).pre ≠ some n) (m : ν) :
    (listPop h l n).1.node m =
      if m = n then ⟨none, none⟩
      else ⟨if (h.node n).next = some m then (h.node n).pre else (h.node m).pre,
        if (h.node n).pre = some m then (h.node n).next else (h.node m).next⟩ := by
  by_cases hm : m = n
  · by_cases hf : (h.list l).frist = some n <;> by_cases hl : (h.list l).last = some n <;>
      simp [listPop, hm, hf, hl]
  · by_cases hf : (h.list l).frist = some n <;> by_cases hl : (h.list l).last = some n <;>
      by_cases h1 : (h.node n).pre = some m <;> by_cases h2 : (h.node n).next = some m <;>
      simp [listPop, hm, Ne.symm hm, hf, hl, hp, h1, h2]

lemma listPopFirst_eq_listPop (hc : (h.list l).count ≠ 0) (hf : (h.list l).frist = some n)
    (hp : (h.node n).pre = none) (hx : (h.node n).next ≠ some n)
    (hl : (h.node n).next = none ↔ (h.list l).last = some n) :
    listPopFirst h l = listPop h l n := by
  refine Prod.ext (Heap.ext ?_ ?_) (by simp [listPopFirst, listPop, hc, hf])
  · funext m
    rw [listPop_node h l n (by simp [hp])]
    by_cases hm : m = n
    · by_cases hz : (h.node n).next = none <;> simp [listPopFirst, hc, hf, hp, hx, hz, hm]
    · by_cases hz : (h.node n).next = none <;> by_cases hzm : (h.node n).next = some m <;>
        simp [listPopFirst, hc, hf, hp, hz, hzm, hm, Ne.symm hm]
  · funext k
    rw [listPop_list]
    by_cases hk : k = l <;> by_cases hz : (h.node n).next = none
    · simp [listPopFirst, hc, hf, hp, hz, hk, hl.mp hz]
    · simp [listPopFirst, hc, hf, hp, hz, hk, mt hl.mpr hz]
    · simp [listPopFirst, hc, hf, hp, hz, hk]
    · simp [listPopFirst, hc, hf, hp, hz, hk]

lemma listPopLast_eq_listPop (hc : (h.list l).count ≠ 0) (hl : (h.list l).last = some n)
    (hx : (h.node n).next = none) (hp : (h.node n).pre ≠ some n)
    (hf : (h.node n).pre = none ↔ (h.list l).frist = some n) :
    listPopLast h l = listPop h l n := by
  refine Prod.ext (Heap.ext ?_ ?_) (by simp [listPopLast, listPop, hc, hl])
  · funext m
    rw [listPop_node h l n hp]
    by_cases hm : m = n
    · by_cases hz : (h.node n).pre = none <;> simp [listPopLast, hc, hl, hp, hx, hz, hm]
    · by_cases hz : (h.node n).pre = none <;> by_cases hzm : (h.node n).pre = some m <;>
        simp [listPopLast, hc, hl, hx, hz, hzm, hm, Ne.symm hm]
  · funext k
    rw [listPop_list]
    by_cases hk : k = l <;> by_cases hz : (h.node n).pre = none
    · simp [listPopLast, hc, hl, hx, hz, hk, hf.mp hz]
    · simp [listPopLast, hc, hl, hx, hz, hk, mt hf.mpr hz]
    · simp [listPopLast, hc, hl, hx, hz, hk]
    · simp [listPopLast, hc, hl, hx, hz, hk]

end ClosedForms

namespace Represents

variable {h : Heap ν κ} {live : Set κ} {σ : κ → List ν} {l : κ} {n : ν}

lemma last_eq_none (hr : Represents h live σ) (hl : l ∈ live) :
    (h.list l).count = 0 ↔ (h.list l).last = none := by
  rw [hr.count_eq_zero hl, hr.last_eq hl, List.getLast?_eq_none_iff]

lemma frist_eq_none (hr : Represents h live σ) (hl : l ∈ live) :
    (h.list l).count = 0 ↔ (h.list l).frist = none := by
  rw [hr.count_eq_zero hl, hr.frist_eq hl, List.head?_eq_none_iff]

lemma init (hr : Represents h live σ) (hl : σ l = []) :
    Represents (listInit h l) (insert l live) (Function.update σ l []) := by
  have hσ : Function.update σ l [] = σ := by rw [← hl, Function.update_eq_self]
  rw [hσ]
  refine ⟨hr.apart, ?_, ?_, ?_⟩
  · intro k hk
    by_cases hkl : k = l
    · subst hkl
      simp [listInit, hl]
    · rw [show (listInit h l).list k = h.list k by simp [listInit, hkl]]
      exact hr.head k ((Set.mem_insert_iff.mp hk).resolve_left hkl)
  · intro k hk
    by_cases hkl : k = l
    · subst hkl
      simp [hl]
    · exact hr.linked k ((Set.mem_insert_iff.mp hk).resolve_left hkl)
  · intro k hk
    exact hr.fresh k (fun hkl => hk (Set.mem_insert_iff.mpr (Or.inr hkl)))

lemma insertLast (hr : Represents h live σ) (hl : l ∈ live) (hn : ∀ j, n ∉ σ j) :
    Represents (listInsertLast h l n) live (Function.update σ l (σ l ++ [n])) := by
  have hlast : (h.list l).last ≠ some n := by
    rw [hr.last_eq hl]
    exact fun he => hn l (List.mem_of_getLast? he)
  have hnode := listInsertLast_node h l n (hr.last_eq_none hl) hlast
  apply hr.replace hl (hr.apart.snoc hn)
  · rw [listInsertLast_list h l n (hr.last_eq_none hl), if_pos rfl, hr.head l hl]
    cases hσ : σ l <;> simp [List.getLast?_cons]
  · intro k hk
    rw [listInsertLast_list h l n (hr.last_eq_none hl), if_neg hk]
  · apply (hr.linked l hl).snoc (hr.apart.nodup l)
    · rw [hnode, if_pos rfl, hr.last_eq hl]
    · intro e he
      have hen : e ≠ n := fun heq => hn l (heq ▸ List.mem_of_getLast? he)
      rw [hnode, if_neg hen, if_pos (by rw [hr.last_eq hl, he])]
    · intro m hm hne
      have hmn : m ≠ n := fun heq => hn l (heq ▸ hm)
      rw [hnode, if_neg hmn, if_neg (by rwa [hr.last_eq hl])]
  · intro k hk m hm
    have hmn : m ≠ n := fun heq => hn k (heq ▸ hm)
    have hme : (h.list l).last ≠ some m := by
      rw [hr.last_eq hl]
      exact fun he => hk (hr.apart.unique k l m hm (List.mem_of_getLast? he))
    rw [hnode, if_neg hmn, if_neg hme]

lemma insertFirst (hr : Represents h live σ) (hl : l ∈ live) (hn : ∀ j, n ∉ σ j) :
    Represents (listInsertFirst h l n) live (Function.update σ l (n :: σ l)) := by
  have hfrist : (h.list l).frist ≠ some n := by
    rw [hr.frist_eq hl]
    exact fun he => hn l (List.mem_of_head? he)
  have hnode := listInsertFirst_node h l n (hr.frist_eq_none hl) hfrist
  apply hr.replace hl (hr.apart.cons hn)
  · rw [listInsertFirst_list h l n (hr.frist_eq_none hl), if_pos rfl, hr.head l hl]
    cases hσ : σ l <;> simp [List.getLast?_cons]
  · intro k hk
    rw [listInsertFirst_list h l n (hr.frist_eq_none hl), if_neg hk]
  · apply (hr.linked l hl).cons (hr.apart.nodup l)
    · rw [hnode, if_pos rfl, hr.frist_eq hl]
    · intro e he
      have hen : e ≠ n := fun heq => hn l (heq ▸ List.mem_of_head? he)
      rw [hnode, if_neg hen, if_pos (by rw [hr.frist_eq hl, he])]
    · intro m hm hne
      have hmn : m ≠ n := fun heq => hn l (heq ▸ hm)
      rw [hnode, if_neg hmn, if_neg (by rwa [hr.frist_eq hl])]
  · intro k hk m hm
    have hmn : m ≠ n := fun heq => hn k (heq ▸ hm)
    have hme : (h.list l).frist ≠ some m := by
      rw [hr.frist_eq hl]
      exact fun he => hk (hr.apart.unique k l m hm (List.mem_of_head? he))
    rw [hnode, if_neg hmn, if_neg hme]

lemma node_eq (hr : Represents h live σ) (hl : l ∈ live) {ys zs : List ν}
    (hcut : σ l = ys ++ n :: zs) : h.node n = ⟨ys.getLast?, zs.head?⟩ :=
  hr.linked l hl ys n zs hcut

lemma pop_cut (hr : Represents h live σ) (hl : l ∈ live) {ys zs : List ν}
    (hcut : σ l = ys ++ n :: zs) :
    Represents (listPop h l n).1 live (Function.update σ l (ys ++ zs)) := by
  have hn := hr.node_eq hl hcut
  have hnd : (ys ++ n :: zs).Nodup := hcut ▸ hr.apart.nodup l
  have hys : n ∉ ys := fun hm => (List.nodup_append.mp hnd).2.2 n hm n (by simp) rfl
  have hzs : n ∉ zs := (List.nodup_cons.mp hnd.of_append_right).1
  have hp : (h.node n).pre ≠ some n := by
    rw [hn]
    exact fun he => hys (List.mem_of_getLast? he)
  have hnode := listPop_node h l n hp
  rw [hn] at hnode
  have hsub : (ys ++ zs).Sublist (σ l) := by
    rw [hcut]
    exact List.Sublist.append_left (List.sublist_cons_self n zs) ys
  have hdisj : ∀ a ∈ ys, a ∉ zs := by
    intro a ha hz
    exact (List.nodup_append.mp hnd).2.2 a ha a (List.mem_cons_of_mem _ hz) rfl
  apply hr.replace hl (hr.apart.shrink hsub)
  · rw [listPop_list, if_pos rfl, hn, hr.head l hl, hcut]
    have hlen : ((ys ++ n :: zs).length : Int) - 1 = (ys ++ zs).length := by
      simp
      omega
    have hhead : (if (ys ++ n :: zs).head? = some n then zs.head? else (ys ++ n :: zs).head?) =
        (ys ++ zs).head? := by
      cases ys with
      | nil => simp
      | cons a as =>
        have han : a ≠ n := fun he => hys (by simp [he])
        simp [han]
    have hlast : (if (ys ++ n :: zs).getLast? = some n then ys.getLast?
        else (ys ++ n :: zs).getLast?) = (ys ++ zs).getLast? := by
      rcases List.eq_nil_or_concat zs with rfl | ⟨zs', b, rfl⟩
      · simp
      · have hbn : b ≠ n := fun he => hzs (by simp [he])
        simp [List.getLast?_cons, hbn]
    simp only [hlen, hhead, hlast]
  · intro k hk
    rw [listPop_list, if_neg hk]
  · apply Linked.unlink (hcut ▸ hr.linked l hl) hnd
    · intro e he
      have hey : e ∈ ys := List.mem_of_getLast? he
      have hen : e ≠ n := fun heq => hys (heq ▸ hey)
      have hez : zs.head? ≠ some e := fun hz => hdisj e hey (List.mem_of_head? hz)
      simp [hnode, hen, he, hez]
    · intro e he
      have hez : e ∈ zs := List.mem_of_head? he
      have hen : e ≠ n := fun heq => hzs (heq ▸ hez)
      have hey : ys.getLast? ≠ some e := fun hy => hdisj e (List.mem_of_getLast? hy) hez
      simp [hnode, hen, he, hey]
    · intro m hm h1 h2
      have hmn : m ≠ n := by
        rintro rfl
        rcases List.mem_append.mp hm with hm | hm
        · exact hys hm
        · exact hzs hm
      simp [hnode, hmn, h1, h2]
  · intro k hk m hm
    have hforeign : m ∉ ys ++ n :: zs := fun hmem => hk (hr.apart.unique k l m hm (hcut ▸ hmem))
    have hmn : m ≠ n := fun heq => hforeign (by simp [heq])
    have h1 : ys.getLast? ≠ some m := fun he => hforeign (by simp [List.mem_of_getLast? he])
    have h2 : zs.head? ≠ some m := fun he => hforeign (by simp [List.mem_of_head? he])
    simp [hnode, hmn, h1, h2]

lemma pop (hr : Represents h live σ) (hl : l ∈ live) (hn : n ∈ σ l) :
    Represents (listPop h l n).1 live (Function.update σ l ((σ l).erase n)) := by
  obtain ⟨ys, zs, -, hcut, herase⟩ := List.exists_erase_eq hn
  rw [herase]
  exact hr.pop_cut hl hcut

lemma pop_node (hr : Represents h live σ) (hl : l ∈ live) (hn : n ∈ σ l) :
    (listPop h l n).1.node n = ⟨none, none⟩ := by
  obtain ⟨ys, zs, hys, hcut, -⟩ := List.exists_erase_eq hn
  have hp : (h.node n).pre ≠ some n := by
    rw [hr.node_eq hl hcut]
    exact fun he => hys (List.mem_of_getLast? he)
  rw [listPop_node h l n hp, if_pos rfl]

lemma popFirst_nil (hr : Represents h live σ) (hl : l ∈ live) (hσ : σ l = []) :
    listPopFirst h l = (h, none) := by
  rw [listPopFirst, if_pos ((hr.count_eq_zero hl).mpr hσ)]

lemma popFirst_cons (hr : Represents h live σ) (hl : l ∈ live) {xs : List ν}
    (hσ : σ l = n :: xs) : listPopFirst h l = listPop h l n := by
  have hn := hr.node_eq hl (show σ l = [] ++ n :: xs from hσ)
  have hnd : (n :: xs).Nodup := hσ ▸ hr.apart.nodup l
  have hhead := hr.head l hl
  rw [hσ] at hhead
  apply listPopFirst_eq_listPop
  · rw [hhead]
    simp
    omega
  · rw [hhead]
    rfl
  · rw [hn]
    rfl
  · rw [hn]
    exact fun he => (List.nodup_cons.mp hnd).1 (List.mem_of_head? he)
  · rw [hn, hhead]
    cases xs with
    | nil => simp
    | cons a as =>
      have hmem : n ∉ a :: as := (List.nodup_cons.mp hnd).1
      simp only [List.head?_cons, reduceCtorEq, List.getLast?_cons_cons, false_iff]
      exact fun he => hmem (List.mem_of_getLast? he)

lemma popLast_nil (hr : Represents h live σ) (hl : l ∈ live) (hσ : σ l = []) :
    listPopLast h l = (h, none) := by
  rw [listPopLast, if_pos ((hr.count_eq_zero hl).mpr hσ)]

lemma popLast_snoc (hr : Represents h live σ) (hl : l ∈ live) {xs : List ν}
    (hσ : σ l = xs ++ [n]) : listPopLast h l = listPop h l n := by
  have hn := hr.node_eq hl (show σ l = xs ++ n :: [] from hσ)
  have hnd : (xs ++ [n]).Nodup := hσ ▸ hr.apart.nodup l
  have hmem : n ∉ xs := fun hm => (List.nodup_append.mp hnd).2.2 n hm n (by simp) rfl
  have hhead := hr.head l hl
  rw [hσ] at hhead
  apply listPopLast_eq_listPop
  · rw [hhead]
    simp
    omega
  · rw [hhead]
    simp
  · rw [hn]
    rfl
  · rw [hn]
    exact fun he => hmem (List.mem_of_getLast? he)
  · rw [hn, hhead]
    cases xs with
    | nil => simp
    | cons a as =>
      have han : a ≠ n := fun he => hmem (by simp [he])
      simp [han]

end Represents

end OsToyI386
