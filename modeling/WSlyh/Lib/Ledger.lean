import Mathlib.Data.List.Nodup
import Mathlib.Logic.Function.Basic

/-! Entries filed under keys, and the ledger that lists them key by key. -/

namespace Lib

variable {κ : Type u} {α : Type v}

def ledger (entries : κ → List α) (keys : List κ) : List (κ × α) :=
  keys.flatMap fun key => (entries key).map (Prod.mk key)

variable {entries entries' : κ → List α} {keys front back : List κ} {key : κ}

@[simp] theorem ledger_nil (entries : κ → List α) : ledger entries [] = [] := rfl

@[simp] theorem ledger_cons (entries : κ → List α) (key : κ) (keys : List κ) :
    ledger entries (key :: keys) = (entries key).map (Prod.mk key) ++ ledger entries keys := rfl

@[simp] theorem ledger_append (entries : κ → List α) (front back : List κ) :
    ledger entries (front ++ back) = ledger entries front ++ ledger entries back := List.flatMap_append

theorem ledger_congr (same : ∀ key ∈ keys, entries' key = entries key) :
    ledger entries' keys = ledger entries keys := by
  induction keys with
  | nil => rfl
  | cons key keys ih =>
    rw [ledger_cons, ledger_cons, same key (by simp), ih fun other member => same other (by simp [member])]

theorem ledger_empty (empty : ∀ key ∈ keys, entries key = []) : ledger entries keys = [] := by
  induction keys with
  | nil => rfl
  | cons key keys ih =>
    rw [ledger_cons, empty key (by simp), ih fun other member => empty other (by simp [member])]
    rfl

theorem ledger_values (entries : κ → List α) (keys : List κ) :
    (ledger entries keys).map Prod.snd = keys.flatMap entries := by
  induction keys with
  | nil => rfl
  | cons key keys ih => simp [ih, Function.comp_def]

/-- An entry under the last key with entries comes at the end of the ledger. -/
theorem ledger_push [DecidableEq κ] (nodup : (front ++ key :: back).Nodup) (last : ∀ other ∈ back, entries other = [])
    (entry : α) :
    ledger (Function.update entries key (entries key ++ [entry])) (front ++ key :: back) =
      ledger entries (front ++ key :: back) ++ [(key, entry)] := by
  have others (other : κ) (member : other ∈ front ++ back) :
      Function.update entries key (entries key ++ [entry]) other = entries other := by
    apply Function.update_of_ne
    rintro rfl
    rw [List.nodup_middle, List.nodup_cons] at nodup
    exact nodup.1 member
  have noMore : ledger (Function.update entries key (entries key ++ [entry])) back = [] := by
    apply ledger_empty
    intro other member
    rw [others other (List.mem_append_right _ member), last other member]
  rw [ledger_append, ledger_cons, Function.update_self, noMore, ledger_append, ledger_cons, ledger_empty last,
    ledger_congr fun other member => others other (List.mem_append_left _ member)]
  simp

/-- Striking out a key leaves the ledger of the others. -/
theorem ledger_strike [DecidableEq κ] (fresh : key ∉ keys) :
    (ledger entries (key :: keys)).filter (·.1 ≠ key) = ledger entries keys := by
  rw [ledger_cons, List.filter_append]
  have own : ((entries key).map (Prod.mk key)).filter (·.1 ≠ key) = [] := by
    rw [List.filter_eq_nil_iff]
    intro entry member
    obtain ⟨value, _, rfl⟩ := List.mem_map.mp member
    simp
  have others : (ledger entries keys).filter (·.1 ≠ key) = ledger entries keys := by
    rw [List.filter_eq_self]
    intro entry member
    obtain ⟨other, known, filed⟩ := List.mem_flatMap.mp member
    obtain ⟨value, _, rfl⟩ := List.mem_map.mp filed
    have differ : other ≠ key := by
      rintro rfl
      exact fresh known
    simpa using differ
  rw [own, others, List.nil_append]

end Lib
