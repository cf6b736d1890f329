import Mathlib.Data.List.Basic
import Mathlib.Tactic.Common

/-!
# Queues handed over by links

A producer keeps a queue of items as a linked list and hands it to a consumer by its
first item. The consumer reads the link of an item once, when it reaches the item, so an
item that is linked later is missed; then the list ends there for the consumer, it
returns the last item as the final one, and the producer hands over what is left when it
takes that item back. A link may also be cut, so that the consumer does not follow it.
-/

namespace NetL7.Lib

variable {α : Type*}

/-- What the consumer has read: whether it stands for an item or only leads to one, the
link, and whether the link is cut. -/
structure Copy (α : Type*) where
  own : Bool
  link : Option α
  cut : Bool
  deriving DecidableEq, Repr

/-- The consumer stops here. -/
def Copy.last (c : Copy α) : Bool := c.link.isNone || c.cut

/-- Where a queue stands: nothing is left of it, it waits to be handed over, it has been
handed over, the consumer walks it, or the consumer has returned a final item. The items
that were returned are taken back in order. -/
inductive Lane (α : Type*)
  | idle
  | pending (rest : List α)
  | sent (copy : Copy α) (rest : List α)
  | walking (returned : List α) (cur : Option α) (copy : Copy α) (rest : List α)
  | final (returned : List α) (last : α) (rest : List α)

namespace Lane

/-- The items that the consumer has not reached. -/
def rest : Lane α → List α
  | idle => []
  | pending rest => rest
  | sent _ rest => rest
  | walking _ _ _ rest => rest
  | final _ _ rest => rest

/-- The items that have not been taken back. -/
def opened : Lane α → List α
  | idle => []
  | pending rest => rest
  | sent _ rest => rest
  | walking returned cur _ rest => returned ++ cur.toList ++ rest
  | final returned last rest => returned ++ last :: rest

/-- The items that were returned, and which of them is final. -/
def results : Lane α → List (α × Bool)
  | idle => []
  | pending _ => []
  | sent _ _ => []
  | walking returned _ _ _ => returned.map (·, false)
  | final returned last _ => returned.map (·, false) ++ [(last, true)]

/-- What was read of an item is no link, or the link to the next one. What only leads to an
item leads to the one that is left. -/
def CopyOk (c : Copy α) (next : List α) : Prop :=
  c.link = none ∨ c.link = next.head?

def Ok : Lane α → Prop
  | idle => True
  | pending rest => rest ≠ []
  | sent c rest => rest ≠ [] ∧ (c.own = true ∧ CopyOk c rest.tail ∨
      c.own = false ∧ c.cut = false ∧ rest.length = 1 ∧ c.link = rest.head?)
  | walking _ cur c rest =>
      c.own = true ∧ cur.isSome = true ∧ CopyOk c rest ∨
        c.own = false ∧ cur = none ∧ c.cut = false ∧ rest.length = 1 ∧ c.link = rest.head?
  | final _ _ _ => True

/-- More items may follow. -/
def Extensible : Lane α → Prop
  | sent c _ => c.own = true
  | walking _ _ c _ => c.own = true
  | _ => True

/-- An item is added at the end. -/
def add (a : α) : Lane α → Lane α
  | idle => pending [a]
  | pending rest => pending (rest ++ [a])
  | sent c rest => sent c (rest ++ [a])
  | walking returned cur c rest => walking returned cur c (rest ++ [a])
  | final returned last rest => final returned last (rest ++ [a])

/-- The consumer takes the queue: it reaches the first item, or is led to it. -/
def take : Lane α → Lane α
  | sent c (a :: rest) =>
      if c.own then walking [] (some a) c rest else walking [] none c (a :: rest)
  | l => l

/-- The consumer follows the link and reads what it finds there. -/
def follow (cut : α → Bool) : Lane α → Lane α
  | walking returned cur _ (a :: rest) =>
      walking (returned ++ cur.toList) (some a) ⟨true, rest.head?, cut a⟩ rest
  | l => l

/-- The consumer stops at an item. -/
def stop : Lane α → Lane α
  | walking returned (some a) _ rest => final returned a rest
  | l => l

/-- The producer hands over what is left. -/
def again : List α → Lane α
  | [] => idle
  | a :: rest => pending (a :: rest)

/-- The producer takes the first returned item back. -/
def retire : Lane α → Lane α
  | walking (_ :: returned) cur c rest => walking returned cur c rest
  | final (_ :: returned) last rest => final returned last rest
  | final [] _ rest => again rest
  | l => l

variable {l : Lane α} {a : α}

theorem opened_eq_append (l : Lane α) : ∃ front, l.opened = front ++ l.rest := by
  cases l with
  | idle => exact ⟨[], rfl⟩
  | pending rest => exact ⟨[], rfl⟩
  | sent c rest => exact ⟨[], rfl⟩
  | walking returned cur c rest => exact ⟨_, rfl⟩
  | final returned last rest => exact ⟨returned ++ [last], by simp [opened, Lane.rest]⟩

theorem results_prefix (l : Lane α) : l.results.map Prod.fst <+: l.opened := by
  cases l with
  | idle => exact List.nil_prefix
  | pending rest => exact List.nil_prefix
  | sent c rest => exact List.nil_prefix
  | walking returned cur c rest =>
    exact ⟨cur.toList ++ rest, by simp [results, opened, Function.comp_def]⟩
  | final returned last rest => exact ⟨rest, by simp [results, opened, Function.comp_def]⟩

theorem opened_add (l : Lane α) (a : α) : (l.add a).opened = l.opened ++ [a] := by
  cases l <;> simp [add, opened]

theorem rest_add (l : Lane α) (a : α) : (l.add a).rest = l.rest ++ [a] := by
  cases l <;> simp [add, rest]

theorem results_add (l : Lane α) (a : α) : (l.add a).results = l.results := by
  cases l <;> rfl

theorem Extensible.add (h : l.Extensible) (a : α) : (l.add a).Extensible := by
  cases l with
  | sent c rest => exact h
  | walking returned cur c rest => exact h
  | _ => trivial

/-- Taking back a returned item takes the first one that is open. -/
theorem opened_of_results {b : Bool} {rs : List (α × Bool)} (h : l.results = (a, b) :: rs) :
    l.opened = a :: l.retire.opened ∧ l.retire.results = rs ∧ l.retire.rest = l.rest := by
  cases l with
  | idle => cases h
  | pending rest => cases h
  | sent c rest => cases h
  | walking returned cur c rest =>
    cases returned with
    | nil => cases h
    | cons r returned =>
      cases h
      exact ⟨rfl, rfl, rfl⟩
  | final returned last rest =>
    cases returned with
    | nil =>
      cases h
      cases rest <;> exact ⟨rfl, rfl, rfl⟩
    | cons r returned =>
      cases h
      exact ⟨rfl, rfl, rfl⟩

theorem Ok.retire (h : l.Ok) : l.retire.Ok := by
  cases l with
  | walking returned cur c rest =>
    cases returned with
    | nil => exact h
    | cons r returned => exact h
  | final returned last rest =>
    cases returned with
    | nil =>
      cases rest with
      | nil => trivial
      | cons b rest => exact List.cons_ne_nil b rest
    | cons r returned => trivial
  | _ => exact h

theorem Extensible.retire (h : l.Extensible) : l.retire.Extensible := by
  cases l with
  | walking returned cur c rest =>
    cases returned with
    | nil => exact h
    | cons r returned => exact h
  | final returned last rest =>
    cases returned with
    | nil => cases rest <;> trivial
    | cons r returned => trivial
  | _ => exact h

/-- Only a final item is the last one open, and then it is the first one too. -/
theorem eq_final_of_results (hok : l.Ok) {b : Bool} {rs : List (α × Bool)}
    (h : l.results = (a, b) :: rs) :
    b = true ∧ l = final [] a l.rest ∨ b = false ∧ l.retire.opened ≠ [] ∧
      ∀ r rest, l ≠ final [] r rest := by
  cases l with
  | idle => cases h
  | pending rest => cases h
  | sent c rest => cases h
  | walking returned cur c rest =>
    cases returned with
    | nil => cases h
    | cons r returned =>
      cases h
      refine .inr ⟨rfl, ?_, nofun⟩
      rcases hok with ⟨-, hcur, -⟩ | ⟨-, -, -, hlen, -⟩
      · cases cur with
        | none => cases hcur
        | some i => simp [retire, opened]
      · cases rest with
        | nil => cases hlen
        | cons i rest => simp [retire, opened]
  | final returned last rest =>
    cases returned with
    | nil =>
      cases h
      exact .inl ⟨rfl, rfl⟩
    | cons r returned =>
      cases h
      exact .inr ⟨rfl, by simp [retire, opened], nofun⟩

theorem CopyOk.append {c : Copy α} {next : List α} (h : CopyOk c next) (a : α) :
    CopyOk c (next ++ [a]) := by
  rcases h with h | h
  · exact .inl h
  · cases next with
    | nil => exact .inl h
    | cons b next => exact .inr h

theorem Ok.add (h : l.Ok) (hext : l.Extensible) (a : α) : (l.add a).Ok := by
  cases l with
  | idle => exact List.cons_ne_nil a []
  | pending rest => exact List.append_ne_nil_of_right_ne_nil rest (List.cons_ne_nil a [])
  | sent c rest =>
    obtain ⟨hne, ⟨hown, hcopy⟩ | ⟨hown, -⟩⟩ := h
    · refine ⟨List.append_ne_nil_of_left_ne_nil hne _, .inl ⟨hown, ?_⟩⟩
      rw [List.tail_append_of_ne_nil hne]
      exact hcopy.append a
    · exact absurd (hext.symm.trans hown) (by decide)
  | walking returned cur c rest =>
    rcases h with ⟨hown, hcur, hcopy⟩ | ⟨hown, -⟩
    · exact .inl ⟨hown, hcur, hcopy.append a⟩
    · exact absurd (hext.symm.trans hown) (by decide)
  | final returned last rest => trivial

end Lane

end NetL7.Lib
