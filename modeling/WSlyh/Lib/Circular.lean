import Mathlib.Data.List.Nodup

/-! Paths and circular lists over a partial successor function, as the list of their cells. -/

namespace Lib

/-- Following `next` leads through `cells` one after the other, and from the last to `stop`. -/
def Leads (next : α → Option α) : List α → α → Prop
  | [], _ => True
  | a :: cells, stop => next a = (cells ++ [stop]).head? ∧ Leads next cells stop

/-- Following `next` from `start` leads through exactly `cells`, all different, and back. -/
structure Circular (next : α → Option α) (start : α) (cells : List α) : Prop where
  head : cells.head? = some start
  leads : Leads next cells start
  nodup : cells.Nodup

section Leads

variable {next next' : α → Option α} {front back cells : List α} {stop : α}

theorem Leads.congr (leads : Leads next cells stop) (same : ∀ a ∈ cells, next' a = next a) :
    Leads next' cells stop := by
  induction cells with
  | nil => trivial
  | cons a cells ih =>
    exact ⟨(same a (by simp)).trans leads.1, ih leads.2 fun b member => same b (by simp [member])⟩

theorem leads_append : Leads next (front ++ a :: back) stop ↔ Leads next front a ∧ Leads next (a :: back) stop := by
  induction front with
  | nil => simp [Leads]
  | cons b front ih =>
    have heads : (front ++ a :: back ++ [stop]).head? = (front ++ [a]).head? := by cases front <;> rfl
    rw [List.cons_append, Leads, Leads, ih, heads, and_assoc]

theorem leads_concat : Leads next (front ++ [a]) stop ↔ Leads next front a ∧ next a = some stop := by
  rw [leads_append]
  simp [Leads]

/-- A path that avoids its end is determined by its start. -/
theorem Leads.unique (leads : Leads next (a :: front) stop) (leads' : Leads next (a :: back) stop)
    (fresh : stop ∉ front) (fresh' : stop ∉ back) : front = back := by
  induction front generalizing a back with
  | nil =>
    cases back with
    | nil => rfl
    | cons b back =>
      have same : some stop = some b := leads.1.symm.trans leads'.1
      cases same
      simp at fresh'
  | cons b front ih =>
    cases back with
    | nil =>
      have same : some b = some stop := leads.1.symm.trans leads'.1
      cases same
      simp at fresh
    | cons c back =>
      have same : some b = some c := leads.1.symm.trans leads'.1
      cases same
      rw [ih leads.2 leads'.2 (fun member => fresh (by simp [member])) (fun member => fresh' (by simp [member]))]

end Leads

namespace Circular

variable {next next' : α → Option α} {start : α} {front back cells : List α}

theorem eq_cons (circular : Circular next start cells) : ∃ rest, cells = start :: rest :=
  List.head?_eq_some_iff.mp circular.head

theorem congr (circular : Circular next start cells) (same : ∀ a ∈ cells, next' a = next a) :
    Circular next' start cells :=
  ⟨circular.head, circular.leads.congr same, circular.nodup⟩

theorem unique (circular : Circular next start front) (circular' : Circular next start back) : front = back := by
  obtain ⟨front, rfl⟩ := circular.eq_cons
  obtain ⟨back, rfl⟩ := circular'.eq_cons
  rw [circular.leads.unique circular'.leads (List.nodup_cons.mp circular.nodup).1
    (List.nodup_cons.mp circular'.nodup).1]

/-- The successor of a cell is the one behind it, or the start. -/
theorem next_eq (circular : Circular next start (front ++ a :: back)) : next a = (back ++ [start]).head? :=
  (leads_append.mp circular.leads).2.1

/-- The same circle from its second cell on. -/
theorem rotate (circular : Circular next start (start :: b :: back)) :
    Circular next b (b :: back ++ [start]) := by
  refine ⟨rfl, ?_, ?_⟩
  · rw [leads_concat]
    exact ⟨circular.leads.2, circular.leads.1⟩
  · rw [List.nodup_append_comm]
    exact circular.nodup

/-- Splicing in a new cell behind `a`. -/
theorem insert (circular : Circular next start (front ++ a :: back)) (fresh : b ∉ front ++ a :: back)
    (same : ∀ c ∈ front ++ back, next' c = next c) (toNew : next' a = some b) (fromNew : next' b = next a) :
    Circular next' start (front ++ a :: b :: back) := by
  obtain ⟨before, behind⟩ := leads_append.mp circular.leads
  refine ⟨?_, ?_, ?_⟩
  · rw [← circular.head]
    cases front <;> rfl
  · refine leads_append.mpr ⟨before.congr fun c member => same c (by simp [member]), toNew, ?_, ?_⟩
    · exact fromNew.trans behind.1
    · exact behind.2.congr fun c member => same c (by simp [member])
  · have moved : (front ++ a :: b :: back).Perm (b :: (front ++ a :: back)) := by
      rw [List.append_cons]
      simpa using @List.perm_middle _ b (front ++ [a]) back
    rw [moved.nodup_iff, List.nodup_cons]
    exact ⟨fresh, circular.nodup⟩

end Circular

end Lib
