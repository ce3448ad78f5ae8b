import Mathlib.Data.List.Destutter
import Mathlib.Data.List.DropRight
import Mathlib.Data.List.SplitBy

/-! Lists that are cut: the last part after a separator, parts of one size, and the runs of one
key. -/
namespace AcsNext.Data

variable {α : Type*} {sep : α}

theorem exists_last_of_mem {l : List α} (h : sep ∈ l) : ∃ a b, l = a ++ sep :: b ∧ sep ∉ b := by
  obtain ⟨a, b, hl, ha⟩ := List.eq_append_cons_of_mem (List.mem_reverse.mpr h)
  refine ⟨b.reverse, a.reverse, ?_, by simpa using ha⟩
  rw [← List.reverse_reverse l, hl]
  simp

theorem flatMap_range_take_drop (size n : ℕ) (l : List α) :
    ((List.range n).flatMap fun k => (l.drop (size * k)).take size) = l.take (size * n) := by
  induction n with
  | zero => simp
  | succ n ih =>
    rw [List.range_succ, List.flatMap_append, ih, List.flatMap_singleton, Nat.mul_succ, List.take_add]

section Separator

variable [DecidableEq α]

def afterLast (sep : α) (l : List α) : List α := l.rtakeWhile fun x => decide (x ≠ sep)

theorem afterLast_append (a : List α) {b : List α} (h : sep ∉ b) :
    afterLast sep (a ++ b) = afterLast sep a ++ b := by
  have hb : ∀ x ∈ b.reverse, decide (x ≠ sep) = true := fun x hx => by
    rw [decide_eq_true_eq]
    rintro rfl
    exact h (List.mem_reverse.mp hx)
  unfold afterLast List.rtakeWhile
  rw [List.reverse_append, List.takeWhile_append_of_pos hb, List.reverse_append,
    List.reverse_reverse]

theorem afterLast_append_cons (a : List α) {b : List α} (h : sep ∉ b) :
    afterLast sep (a ++ sep :: b) = b := by
  have hsplit : a ++ sep :: b = (a ++ [sep]) ++ b := by simp
  rw [hsplit, afterLast_append _ h, afterLast, List.rtakeWhile_concat_neg _ _ _ (by simp),
    List.nil_append]

theorem afterLast_of_not_mem {l : List α} (h : sep ∉ l) : afterLast sep l = l := by
  simpa [afterLast] using afterLast_append [] h

theorem mem_of_mem_afterLast {l : List α} {x : α} (h : x ∈ afterLast sep l) : x ∈ l :=
  (List.rtakeWhile_suffix _ _).subset h

theorem getLast?_splitOn (sep : α) (l : List α) :
    (l.splitOn sep).getLast? = some (afterLast sep l) := by
  by_cases h : sep ∈ l
  · obtain ⟨a, b, rfl, hb⟩ := exists_last_of_mem h
    rw [List.splitOn_append_cons_self, List.splitOn_eq_singleton hb, afterLast_append_cons a hb]
    simp
  · rw [List.splitOn_eq_singleton h, afterLast_of_not_mem h]
    rfl

theorem not_mem_of_mem_splitOn {l part : List α} (h : part ∈ l.splitOn sep) : sep ∉ part := by
  -- the first part ends at the first separator, if there is one
  induction hn : l.length using Nat.strong_induction_on generalizing l with
  | _ n ih =>
    by_cases hmem : sep ∈ l
    · obtain ⟨a, b, rfl, ha⟩ := List.eq_append_cons_of_mem hmem
      rw [List.splitOn_append_cons_self_of_not_mem ha, List.mem_cons] at h
      rcases h with rfl | h
      · exact ha
      · refine ih b.length ?_ h rfl
        rw [← hn, List.length_append, List.length_cons]
        omega
    · rw [List.splitOn_eq_singleton hmem, List.mem_singleton] at h
      rwa [h]

theorem one_lt_length_splitOn_iff (sep : α) (l : List α) :
    1 < (l.splitOn sep).length ↔ sep ∈ l := by
  constructor
  · intro hlength
    by_contra h
    rw [List.splitOn_eq_singleton h] at hlength
    simp at hlength
  · intro h
    obtain ⟨a, b, rfl, _⟩ := exists_last_of_mem h
    have ha := List.length_pos_of_ne_nil (List.splitOn_ne_nil sep a)
    have hb := List.length_pos_of_ne_nil (List.splitOn_ne_nil sep b)
    rw [List.splitOn_append_cons_self, List.length_append]
    omega

end Separator

section Keys

variable {κ : Type*} [DecidableEq κ] (key : α → κ)

theorem destutter'_append_of_key_eq {a : α} {run : List α} (h : ∀ b ∈ run, key a = key b)
    (l : List α) :
    (run ++ l).destutter' (fun a b => key a ≠ key b) a =
      l.destutter' (fun a b => key a ≠ key b) a := by
  induction run with
  | nil => rfl
  | cons b run ih =>
    have hb : ¬ key a ≠ key b := not_not.mpr (h b List.mem_cons_self)
    rw [List.cons_append, List.destutter'_cons, if_neg hb]
    exact ih fun c hc => h c (List.mem_cons_of_mem b hc)

theorem exists_destutter'_eq_cons (R : α → α → Prop) [DecidableRel R] (a : α) (l : List α) :
    ∃ tail, l.destutter' R a = a :: tail := by
  induction l with
  | nil => exact ⟨[], rfl⟩
  | cons b l ih =>
    rw [List.destutter'_cons]
    split_ifs with hab
    · exact ⟨_, rfl⟩
    · exact ih

theorem key_eq_of_isChain {a : α} {run : List α}
    (h : (a :: run).IsChain fun x y => decide (key x = key y) = true) : ∀ b ∈ run, key a = key b := by
  induction run generalizing a with
  | nil => simp
  | cons c run ih =>
    rw [List.isChain_cons_cons, decide_eq_true_eq] at h
    obtain ⟨hac, htail⟩ := h
    intro b hb
    rcases List.mem_cons.mp hb with rfl | hb
    · exact hac
    · exact hac.trans (ih htail b hb)

omit [DecidableEq κ] in
theorem take_filterMap_head? {runs : List (List α)} (h : [] ∉ runs) (n : ℕ) :
    (runs.filterMap List.head?).take n = (runs.take n).filterMap List.head? := by
  induction runs generalizing n with
  | nil => simp
  | cons run runs ih =>
    rw [List.mem_cons, not_or] at h
    obtain ⟨a, run, rfl⟩ := List.exists_cons_of_ne_nil (Ne.symm h.1)
    cases n with
    | zero => rfl
    | succ n =>
      rw [List.filterMap_cons_some List.head?_cons, List.take_succ_cons, List.take_succ_cons,
        List.filterMap_cons_some List.head?_cons, ih h.2]

theorem filterMap_head?_splitBy (l : List α) :
    (l.splitBy fun a b => decide (key a = key b)).filterMap List.head? =
      l.destutter fun a b => key a ≠ key b := by
  obtain ⟨hflatten, hnil, hrun, hnext⟩ := List.splitBy_eq_iff.mp
    (rfl : (l.splitBy fun a b => decide (key a = key b)) = _)
  generalize (l.splitBy fun a b => decide (key a = key b)) = runs at *
  subst hflatten
  induction runs with
  | nil => rfl
  | cons run runs ih =>
    rw [List.mem_cons, not_or] at hnil
    obtain ⟨a, run, rfl⟩ := List.exists_cons_of_ne_nil (Ne.symm hnil.1)
    have hkey := key_eq_of_isChain key (hrun (a :: run) List.mem_cons_self)
    have hrest := ih hnil.2 (fun m hm => hrun m (List.mem_cons_of_mem _ hm)) hnext.tail
    rw [List.filterMap_cons_some List.head?_cons, hrest, List.flatten_cons, List.cons_append,
      List.destutter_cons', destutter'_append_of_key_eq key hkey]
    cases runs with
    | nil => rfl
    | cons next runs =>
      obtain ⟨b, next, rfl⟩ := List.exists_cons_of_ne_nil fun h => hnil.2 (h ▸ List.mem_cons_self)
      obtain ⟨_, _, hlast⟩ := (List.isChain_cons_cons.mp hnext).1
      have hlast' : key ((a :: run).getLast (by simp)) = key a := by
        rcases List.mem_cons.mp (List.getLast_mem (List.cons_ne_nil a run)) with h | h
        · rw [h]
        · exact (hkey _ h).symm
      have hab : key a ≠ key b := by
        rw [← hlast']
        exact of_decide_eq_false hlast
      rw [List.flatten_cons, List.cons_append, List.destutter_cons', List.destutter'_cons,
        if_pos hab]

/-- The first runs, by their first elements or by all of them. -/
theorem forall_take_head?_splitBy (l : List α) (n : ℕ) (P : κ → Prop) :
    (∀ a ∈ ((l.splitBy fun a b => decide (key a = key b)).filterMap List.head?).take n, P (key a)) ↔
      ∀ run ∈ (l.splitBy fun a b => decide (key a = key b)).take n, ∀ a ∈ run, P (key a) := by
  have hnil := List.nil_notMem_splitBy (fun a b => decide (key a = key b)) l
  rw [take_filterMap_head? hnil]
  constructor
  · intro h run hrun a ha
    obtain ⟨b, rest, rfl⟩ := List.exists_cons_of_ne_nil (List.ne_nil_of_mem ha)
    have hb : P (key b) := h b (List.mem_filterMap.mpr ⟨_, hrun, rfl⟩)
    have hkey := key_eq_of_isChain key (List.isChain_of_mem_splitBy (List.mem_of_mem_take hrun))
    rcases List.mem_cons.mp ha with rfl | ha
    · exact hb
    · exact hkey a ha ▸ hb
  · intro h a ha
    obtain ⟨run, hrun, hhead⟩ := List.mem_filterMap.mp ha
    exact h run hrun a (List.mem_of_head? hhead)

end Keys

end AcsNext.Data
