import TableScript.Proofs.Occurrence
import TableScript.Session

/-!
What giving cells to the list literals of some code does to it. Cells come in ascending order, so
each literal has its own, and the code follows the policies that allow those cells.
-/

namespace TableScript

namespace Numbering

variable {α β : Type}

/-- What a numbering makes when the given cell is the first free one, and the next free cell. -/
def startingAt (x : Numbering α) (first : Nat) : α × Nat :=
  x.run first

@[simp]
theorem startingAt_pure (a : α) (first : Nat) :
    startingAt (pure a : Numbering α) first = (a, first) :=
  rfl

@[simp]
theorem startingAt_bind (x : Numbering α) (f : α → Numbering β) (first : Nat) :
    startingAt (x >>= f) first = (f (x.startingAt first).1).startingAt (x.startingAt first).2 :=
  rfl

@[simp]
theorem startingAt_fresh (first : Nat) : fresh.startingAt first = (⟨first⟩, first + 1) :=
  rfl

end Numbering

open TableScript.Numbering

/-! ### Occurrences -/

/-- The number of list literals among some occurrences. -/
def literalCount : List Occurrence → Nat
  | [] => 0
  | ⟨_, .list _⟩ :: rest => literalCount rest + 1
  | ⟨_, .continue⟩ :: rest => literalCount rest
  | ⟨_, .break⟩ :: rest => literalCount rest

/-- Gives the list literals among some occurrences cells, beginning with a given one. -/
def renumber (first : Nat) : List Occurrence → List Occurrence
  | [] => []
  | ⟨site, .list _⟩ :: rest => ⟨site, .list (some ⟨first⟩)⟩ :: renumber (first + 1) rest
  | ⟨site, .continue⟩ :: rest => ⟨site, .continue⟩ :: renumber first rest
  | ⟨site, .break⟩ :: rest => ⟨site, .break⟩ :: renumber first rest

@[simp]
theorem literalCount_append (xs ys : List Occurrence) :
    literalCount (xs ++ ys) = literalCount xs + literalCount ys := by
  fun_induction literalCount xs with
  | case1 => simp
  | case2 _ _ rest ih => simp only [List.cons_append, literalCount, ih]; omega
  | case3 _ rest ih => simpa only [List.cons_append, literalCount] using ih
  | case4 _ rest ih => simpa only [List.cons_append, literalCount] using ih

@[simp]
theorem renumber_append (first : Nat) (xs ys : List Occurrence) :
    renumber first (xs ++ ys) = renumber first xs ++ renumber (first + literalCount xs) ys := by
  fun_induction renumber first xs with
  | case1 => simp [literalCount]
  | case2 first _ _ rest ih =>
      simp only [List.cons_append, renumber, literalCount, ih, Nat.add_assoc, Nat.add_comm 1]
  | case3 first _ rest ih => simp only [List.cons_append, renumber, literalCount, ih]
  | case4 first _ rest ih => simp only [List.cons_append, renumber, literalCount, ih]

mutual

/-- Numbering some code numbers what occurs in it, in the same order. -/
theorem Code.number_occurrences (site : Site) : ∀ (code : Code) (first : Nat),
    (code.number.startingAt first).2 = first + literalCount (code.occurrences site) ∧
      (code.number.startingAt first).1.occurrences site = renumber first (code.occurrences site)
  | .const _, _ => ⟨rfl, rfl⟩
  | .load _, _ => ⟨rfl, rfl⟩
  | .list _ elements, _ => by
    simp only [Code.number, Code.occurrences, startingAt_bind, startingAt_pure, startingAt_fresh,
      literalCount_append, renumber_append, literalCount, renumber,
      numberAll_occurrences site elements, Nat.add_assoc, Nat.zero_add, and_self]
  | .table entries, _ => by
    simp only [Code.number, Code.occurrences, startingAt_bind, startingAt_pure,
      numberEntries_occurrences site entries, and_self]
  | .function _ _ body, _ => by
    simp only [Code.number, Code.occurrences, startingAt_bind, startingAt_pure,
      numberSteps_occurrences .function body, and_self]
  | .unary _ operand, _ => by
    simp only [Code.number, Code.occurrences, startingAt_bind, startingAt_pure,
      Code.number_occurrences site operand, and_self]
  | .or operands, _ => by
    simp only [Code.number, Code.occurrences, startingAt_bind, startingAt_pure,
      numberAll_occurrences site operands, and_self]
  | .and operands, _ => by
    simp only [Code.number, Code.occurrences, startingAt_bind, startingAt_pure,
      numberAll_occurrences site operands, and_self]
  | .fold first rest, _ => by
    simp only [Code.number, Code.occurrences, startingAt_bind, startingAt_pure, literalCount_append,
      renumber_append, Code.number_occurrences site first, numberRest_occurrences site rest,
      Nat.add_assoc, and_self]
  | .index container index, _ => by
    simp only [Code.number, Code.occurrences, startingAt_bind, startingAt_pure, literalCount_append,
      renumber_append, Code.number_occurrences site container, Code.number_occurrences site index,
      Nat.add_assoc, and_self]
  | .member container _, _ => by
    simp only [Code.number, Code.occurrences, startingAt_bind, startingAt_pure,
      Code.number_occurrences site container, and_self]
  | .call callee args, _ => by
    simp only [Code.number, Code.occurrences, startingAt_bind, startingAt_pure, literalCount_append,
      renumber_append, Code.number_occurrences site callee, numberAll_occurrences site args,
      Nat.add_assoc, and_self]
  | .store _ value, _ => by
    simp only [Code.number, Code.occurrences, startingAt_bind, startingAt_pure,
      Code.number_occurrences site value, and_self]
  | .update _ _ value, _ => by
    simp only [Code.number, Code.occurrences, startingAt_bind, startingAt_pure,
      Code.number_occurrences site value, and_self]
  | .storeGlobal _ value, _ => by
    simp only [Code.number, Code.occurrences, startingAt_bind, startingAt_pure,
      Code.number_occurrences site value, and_self]
  | .storeIndex container index value, _ => by
    simp only [Code.number, Code.occurrences, startingAt_bind, startingAt_pure, literalCount_append,
      renumber_append, Code.number_occurrences site container, Code.number_occurrences site index,
      Code.number_occurrences site value, Nat.add_assoc, and_self]
  | .updateIndex _ container index value, _ => by
    simp only [Code.number, Code.occurrences, startingAt_bind, startingAt_pure, literalCount_append,
      renumber_append, Code.number_occurrences site container, Code.number_occurrences site index,
      Code.number_occurrences site value, Nat.add_assoc, and_self]
  | .storeMember container _ value, _ => by
    simp only [Code.number, Code.occurrences, startingAt_bind, startingAt_pure, literalCount_append,
      renumber_append, Code.number_occurrences site container, Code.number_occurrences site value,
      Nat.add_assoc, and_self]
  | .updateMember _ container _ value, _ => by
    simp only [Code.number, Code.occurrences, startingAt_bind, startingAt_pure, literalCount_append,
      renumber_append, Code.number_occurrences site container, Code.number_occurrences site value,
      Nat.add_assoc, and_self]
  | .flow flow, _ => by
    simp only [Code.number, Code.occurrences, startingAt_bind, startingAt_pure,
      Flow.number_occurrences site flow, and_self]

theorem Flow.number_occurrences (site : Site) : ∀ (flow : Flow) (first : Nat),
    (flow.number.startingAt first).2 = first + literalCount (flow.occurrences site) ∧
      (flow.number.startingAt first).1.occurrences site = renumber first (flow.occurrences site)
  | .nothing, _ => ⟨rfl, rfl⟩
  | .block body, _ => by
    simp only [Flow.number, Flow.occurrences, startingAt_bind, startingAt_pure,
      numberSteps_occurrences site body, and_self]
  | .branch condition body otherwise, _ => by
    simp only [Flow.number, Flow.occurrences, startingAt_bind, startingAt_pure, literalCount_append,
      renumber_append, Code.number_occurrences site condition, numberSteps_occurrences site body,
      Flow.number_occurrences site otherwise, Nat.add_assoc, and_self]
  | .while condition body, _ => by
    simp only [Flow.number, Flow.occurrences, startingAt_bind, startingAt_pure, literalCount_append,
      renumber_append, Code.number_occurrences site.condition condition,
      numberSteps_occurrences .loopBody body, Nat.add_assoc, and_self]
  | .loop body, _ => by
    simp only [Flow.number, Flow.occurrences, startingAt_bind, startingAt_pure,
      numberSteps_occurrences .loopBody body, and_self]
  | .forIn _ _ items body, _ => by
    simp only [Flow.number, Flow.occurrences, startingAt_bind, startingAt_pure, literalCount_append,
      renumber_append, Code.number_occurrences site items, numberSteps_occurrences .loopBody body,
      Nat.add_assoc, and_self]
  | .forOf _ start stop step body, _ => by
    simp only [Flow.number, Flow.occurrences, startingAt_bind, startingAt_pure, literalCount_append,
      renumber_append, Code.number_occurrences site start, Code.number_occurrences site stop,
      Code.number_occurrences site step, numberSteps_occurrences .loopBody body, Nat.add_assoc,
      and_self]
  | .return value, _ => by
    simp only [Flow.number, Flow.occurrences, startingAt_bind, startingAt_pure,
      Code.number_occurrences site value, and_self]
  | .continue, _ => ⟨rfl, rfl⟩
  | .break, _ => ⟨rfl, rfl⟩

theorem numberAll_occurrences (site : Site) : ∀ (codes : List Code) (first : Nat),
    ((numberAll codes).startingAt first).2 = first + literalCount (codeOccurrences site codes) ∧
      codeOccurrences site ((numberAll codes).startingAt first).1
        = renumber first (codeOccurrences site codes)
  | [], _ => ⟨rfl, rfl⟩
  | code :: codes, _ => by
    simp only [numberAll, codeOccurrences, startingAt_bind, startingAt_pure, literalCount_append,
      renumber_append, Code.number_occurrences site code, numberAll_occurrences site codes,
      Nat.add_assoc, and_self]

theorem numberRest_occurrences (site : Site) : ∀ (rest : List (BinaryOp × Code)) (first : Nat),
    ((numberRest rest).startingAt first).2 = first + literalCount (restOccurrences site rest) ∧
      restOccurrences site ((numberRest rest).startingAt first).1
        = renumber first (restOccurrences site rest)
  | [], _ => ⟨rfl, rfl⟩
  | (_, code) :: rest, _ => by
    simp only [numberRest, restOccurrences, startingAt_bind, startingAt_pure, literalCount_append,
      renumber_append, Code.number_occurrences site code, numberRest_occurrences site rest,
      Nat.add_assoc, and_self]

theorem numberEntries_occurrences (site : Site) : ∀ (entries : List CodeEntry) (first : Nat),
    ((numberEntries entries).startingAt first).2
        = first + literalCount (codeEntryOccurrences site entries) ∧
      codeEntryOccurrences site ((numberEntries entries).startingAt first).1
        = renumber first (codeEntryOccurrences site entries)
  | [], _ => ⟨rfl, rfl⟩
  | .fixed _ value :: entries, _ => by
    simp only [numberEntries, codeEntryOccurrences, startingAt_bind, startingAt_pure,
      literalCount_append, renumber_append, Code.number_occurrences site value,
      numberEntries_occurrences site entries, Nat.add_assoc, and_self]
  | .computed key value :: entries, _ => by
    simp only [numberEntries, codeEntryOccurrences, startingAt_bind, startingAt_pure,
      literalCount_append, renumber_append, Code.number_occurrences site key,
      Code.number_occurrences site value, numberEntries_occurrences site entries, Nat.add_assoc,
      and_self]

theorem numberSteps_occurrences (site : Site) : ∀ (steps : List Step) (first : Nat),
    ((numberSteps steps).startingAt first).2 = first + literalCount (stepOccurrences site steps) ∧
      stepOccurrences site ((numberSteps steps).startingAt first).1
        = renumber first (stepOccurrences site steps)
  | [], _ => ⟨rfl, rfl⟩
  | .value code :: steps, _ => by
    simp only [numberSteps, stepOccurrences, startingAt_bind, startingAt_pure, literalCount_append,
      renumber_append, Code.number_occurrences site code, numberSteps_occurrences site steps,
      Nat.add_assoc, and_self]
  | .flow flow :: steps, _ => by
    simp only [numberSteps, stepOccurrences, startingAt_bind, startingAt_pure, literalCount_append,
      renumber_append, Flow.number_occurrences site flow, numberSteps_occurrences site steps,
      Nat.add_assoc, and_self]

end

/-! ### Cells -/

/-- The policy `after` allows what `before` allows, also once list literals have cells below a
bound. -/
structure Policy.Numbered (before after : Policy) (bound : Nat) : Prop where
  list : ∀ site cell index, index < bound → before site (.list cell) →
    after site (.list (some ⟨index⟩))
  continues : ∀ site, before site .continue → after site .continue
  breaks : ∀ site, before site .break → after site .break

theorem Policy.Numbered.renumber {before after : Policy} {bound : Nat}
    (hpolicy : before.Numbered after bound) {first : Nat} {occurrences : List Occurrence}
    (hbound : first + literalCount occurrences ≤ bound) (hallowed : before.Allows occurrences) :
    after.Allows (renumber first occurrences) := by
  fun_induction TableScript.renumber first occurrences with
  | case1 => exact fun _ ho => absurd ho List.not_mem_nil
  | case2 first site cell rest ih =>
      rw [allows_cons] at hallowed ⊢
      rw [literalCount] at hbound
      exact ⟨hpolicy.list site cell first (by omega) hallowed.1, ih (by omega) hallowed.2⟩
  | case3 first site rest ih =>
      rw [allows_cons] at hallowed ⊢
      exact ⟨hpolicy.continues site hallowed.1, ih hbound hallowed.2⟩
  | case4 first site rest ih =>
      rw [allows_cons] at hallowed ⊢
      exact ⟨hpolicy.breaks site hallowed.1, ih hbound hallowed.2⟩

/-- The cell of a list literal, if it has one, and nothing for other occurrences. -/
def Occurrence.literal? : Occurrence → Option (Option CellRef)
  | ⟨_, .list cell⟩ => some cell
  | ⟨_, .continue⟩ => none
  | ⟨_, .break⟩ => none

/-- Numbered literals have consecutive cells, so no two of them share one. -/
theorem literals_renumber (first : Nat) (occurrences : List Occurrence) :
    (renumber first occurrences).filterMap Occurrence.literal?
      = (List.range' first (literalCount occurrences)).map fun index => some ⟨index⟩ := by
  fun_induction renumber first occurrences with
  | case1 => rfl
  | case2 first site cell rest ih =>
      simp only [List.filterMap_cons, Occurrence.literal?, ih, literalCount, List.range'_succ,
        List.map_cons]
  | case3 first site rest ih =>
      simpa only [List.filterMap_cons, Occurrence.literal?, literalCount] using ih
  | case4 first site rest ih =>
      simpa only [List.filterMap_cons, Occurrence.literal?, literalCount] using ih

/-! ### Preparing a program -/

namespace Store

variable (s : Store)

theorem addCells_size (steps : List Step) (site : Site) :
    (s.addCells steps).2.cells.size = s.cells.size + literalCount (stepOccurrences site steps) := by
  have hnext := (numberSteps_occurrences site steps s.cells.size).1
  change (s.growCells ((numberSteps steps).startingAt s.cells.size).2).cells.size = _
  rw [hnext, growCells, Array.size_append, Array.size_replicate]
  omega

theorem addCells_occurrences (steps : List Step) (site : Site) :
    stepOccurrences site (s.addCells steps).1
      = renumber s.cells.size (stepOccurrences site steps) :=
  (numberSteps_occurrences site steps s.cells.size).2

theorem addCells_allowed {before after : Policy} {steps : List Step} {site : Site}
    (hpolicy : before.Numbered after (s.addCells steps).2.cells.size)
    (hsteps : before.Allows (stepOccurrences site steps)) :
    after.Allows (stepOccurrences site (s.addCells steps).1) := by
  rw [addCells_occurrences]
  exact hpolicy.renumber (Nat.le_of_eq (s.addCells_size steps site).symm) hsteps

variable (setup : Setup) (block : Block)

/-- Preparing a program only adds cells to a store. -/
theorem prepare_eq_growCells : ∃ count, (s.prepare setup block).2 = s.growCells count := by
  obtain ⟨engine, keepLists⟩ := setup
  cases engine with
  | interpreter => exact ⟨0, by simp [prepare, growCells]⟩
  | compiler =>
      cases keepLists with
      | false => exact ⟨0, by simp [prepare, growCells]⟩
      | true => exact ⟨_, rfl⟩

theorem prepare_functions : (s.prepare setup block).2.functions = s.functions := by
  obtain ⟨count, hcount⟩ := s.prepare_eq_growCells setup block
  rw [hcount, growCells]

theorem prepare_events : (s.prepare setup block).2.events = s.events := by
  obtain ⟨count, hcount⟩ := s.prepare_eq_growCells setup block
  rw [hcount, growCells]

end Store

end TableScript
