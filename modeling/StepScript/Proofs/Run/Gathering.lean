import Mathlib.Data.List.Basic
import StepScript.Run.Failure

/-!
# Gathering — failures inside failures

The failures of a list of steps are gathered to one failure, and that one may be gathered with others
again.  So a failure is a tree, and its leaves are single failures.  What caused a step to fail is not
part of the tree, even if it is the failure of a list itself.

* `RunFailure.at?` is the failure at a place inside another one;
* `RunFailure.leaves` are the single failures inside a failure, with their places, from left to right;
* `Gathering` is a way to gather failures in groups, and groups of groups;
* `RunFailure.gathering_immaterial` is the main result: messages and fatality are those of the leaves,
  whatever the way in which they were gathered.
-/

namespace StepScript

namespace RunFailure

/-! ## Single failures -/

def members : RunFailure → List RunFailure
  | .several members => members
  | e => [e]

def IsSingle : RunFailure → Prop
  | .several _ => False
  | _ => True

def IsStepFailure : RunFailure → Prop
  | .failed _ _ _ => True
  | _ => False

/-- Whether a single failure ends its list. -/
def EndsList : RunFailure → Prop
  | .unknownType _ _ => True
  | .invalid _ _ => True
  | _ => False

variable {e : RunFailure}

/-- A single failure is fatal if it ends its list. -/
theorem isFatal_iff_of_isSingle (h : e.IsSingle) : e.isFatal = true ↔ e.EndsList := by
  cases e with
  | unknownType type number => simp [isFatal, EndsList]
  | invalid number cause => simp [isFatal, EndsList]
  | failed number name cause => simp [isFatal, EndsList]
  | several members => exact absurd h id

/-- A single failure has one message, its own. -/
theorem messages_of_isSingle (h : e.IsSingle) : e.messages = [e.message] := by
  cases e with
  | several members => exact absurd h id
  | _ => rfl

theorem IsStepFailure.not_endsList (h : e.IsStepFailure) : ¬ e.EndsList := by
  cases e with
  | failed number name cause => exact id
  | _ => exact absurd h id

/-- What holds of single failures and of failures whose members have it holds of all failures. -/
@[elab_as_elim]
theorem member_induction {motive : RunFailure → Prop} (single : ∀ e, e.IsSingle → motive e)
    (several : ∀ members, (∀ e ∈ members, motive e) → motive (.several members)) :
    ∀ e, motive e
  | .unknownType _ _ => single _ trivial
  | .invalid _ _ => single _ trivial
  | .failed _ _ _ => single _ trivial
  | .several members => several members fun e _ => member_induction single several e

/-! ## What a failure conveys -/

/-- Some failure is fatal exactly if there is one that is. -/
theorem someFatal_iff (members : List RunFailure) :
    someFatal members = true ↔ ∃ e ∈ members, e.isFatal = true := by
  induction members with
  | nil => simp [someFatal]
  | cons e rest ih => simp [someFatal, ih]

theorem messagesOfAll_eq_flatMap (members : List RunFailure) :
    messagesOfAll members = members.flatMap messages := by
  induction members with
  | nil => rfl
  | cons e rest ih => rw [messagesOfAll, ih, List.flatMap_cons]

/-- A failure has the messages of others, in order, and is fatal if one of them is. -/
structure Conveys (e : RunFailure) (failures : List RunFailure) : Prop where
  messages_eq : e.messages = failures.flatMap messages
  isFatal_iff : e.isFatal = true ↔ ∃ failure ∈ failures, failure.isFatal = true

theorem conveys_self (e : RunFailure) : e.Conveys [e] :=
  ⟨by simp, by simp⟩

/-- Failures put together convey their members. -/
theorem conveys_several (members : List RunFailure) : (several members).Conveys members where
  messages_eq := by rw [messages, messagesOfAll_eq_flatMap]
  isFatal_iff := by rw [isFatal, someFatal_iff]

/-- What is gathered conveys what it is gathered from, also if that is only one failure. -/
theorem conveys_collect (failures : List RunFailure) : (collect failures).Conveys failures := by
  unfold collect
  split
  · exact conveys_self _
  · exact conveys_several failures

/-- A failure conveys the single failures that it consists of. -/
theorem conveys_members (e : RunFailure) : e.Conveys e.members := by
  cases e with
  | several members => exact conveys_several members
  | _ => exact conveys_self _

variable {failures : List RunFailure}

/-- Each of the parts that a failure conveys can be replaced by what that part conveys. -/
theorem Conveys.flatMap {α : Type} {parts : List α} {whole : α → RunFailure}
    {inside : α → List RunFailure} (he : e.Conveys (parts.map whole))
    (h : ∀ part ∈ parts, (whole part).Conveys (inside part)) :
    e.Conveys (parts.flatMap inside) where
  messages_eq := calc
    e.messages = (parts.map whole).flatMap messages := he.messages_eq
    _ = parts.flatMap fun part => (whole part).messages := List.flatMap_map ..
    _ = parts.flatMap fun part => (inside part).flatMap messages :=
      List.flatMap_congr fun part hpart => (h part hpart).messages_eq
    _ = (parts.flatMap inside).flatMap messages := List.flatMap_assoc.symm
  isFatal_iff := by
    rw [he.isFatal_iff]
    constructor
    · rintro ⟨_, hmem, hfatal⟩
      obtain ⟨part, hpart, rfl⟩ := List.mem_map.1 hmem
      obtain ⟨failure, hfailure, hfatal⟩ := (h part hpart).isFatal_iff.1 hfatal
      exact ⟨failure, List.mem_flatMap.2 ⟨part, hpart, hfailure⟩, hfatal⟩
    · rintro ⟨failure, hmem, hfatal⟩
      obtain ⟨part, hpart, hfailure⟩ := List.mem_flatMap.1 hmem
      exact ⟨_, List.mem_map_of_mem hpart, (h part hpart).isFatal_iff.2 ⟨failure, hfailure, hfatal⟩⟩

/-- Single failures have one message each. -/
theorem Conveys.messages_eq_map (h : e.Conveys failures)
    (hsingle : ∀ failure ∈ failures, failure.IsSingle) : e.messages = failures.map message :=
  calc e.messages
      = failures.flatMap messages := h.messages_eq
    _ = failures.flatMap fun failure => [failure.message] :=
      List.flatMap_congr fun failure hmem => messages_of_isSingle (hsingle failure hmem)
    _ = failures.map message := List.map_eq_flatMap.symm

theorem Conveys.isFatal_iff_endsList (h : e.Conveys failures)
    (hsingle : ∀ failure ∈ failures, failure.IsSingle) :
    e.isFatal = true ↔ ∃ failure ∈ failures, failure.EndsList :=
  h.isFatal_iff.trans (exists_congr fun failure =>
    and_congr_right fun hmem => isFatal_iff_of_isSingle (hsingle failure hmem))

/-- Nothing is lost when single failures are gathered. -/
theorem members_collect (h : ∀ e ∈ failures, e.IsSingle) :
    (collect failures).members = failures := by
  unfold collect
  split
  · rename_i e
    have he : e.IsSingle := h e (by simp)
    cases e with
    | several members => exact absurd he id
    | _ => rfl
  · rfl

theorem two_le_of_collect_eq_several {members : List RunFailure}
    (hsingle : ∀ e ∈ failures, e.IsSingle) (hne : failures ≠ [])
    (h : collect failures = .several members) : 2 ≤ members.length := by
  match failures, hne with
  | [e], _ =>
    have he : e.IsSingle := hsingle e (by simp)
    rw [show e = .several members from h] at he
    exact absurd he id
  | e :: e' :: rest, _ =>
    have hmembers : e :: e' :: rest = members := by simpa [collect] using h
    simp [← hmembers]

/-- If only the last one of several failures can end a list, it tells whether they did. -/
theorem isFatal_collect_iff_getLast? (hsingle : ∀ e ∈ failures, e.IsSingle)
    (hsteps : ∀ e ∈ failures.dropLast, e.IsStepFailure) :
    (collect failures).isFatal = true ↔ ∃ e, failures.getLast? = some e ∧ e.EndsList := by
  rw [(conveys_collect failures).isFatal_iff_endsList hsingle]
  constructor
  · rintro ⟨e, he, hends⟩
    -- none of those before the last one ends a list
    have hne : failures ≠ [] := List.ne_nil_of_mem he
    rw [← List.dropLast_append_getLast hne] at he
    rcases List.mem_append.1 he with hinit | hlast
    · exact absurd hends (hsteps e hinit).not_endsList
    · rw [List.mem_singleton.1 hlast] at hends
      exact ⟨_, List.getLast?_eq_some_getLast hne, hends⟩
  · rintro ⟨e, hlast, hends⟩
    exact ⟨e, List.mem_of_getLast? hlast, hends⟩

/-! ## Places and leaves -/

def gathered : RunFailure → List RunFailure
  | .several members => members
  | _ => []

/-- The failure at a place: the member that the first number counts, inside of it the one that the second
number counts, and so on. -/
def at? (e : RunFailure) : List Nat → Option RunFailure
  | [] => some e
  | i :: place => e.gathered[i]?.bind fun member => member.at? place

mutual

/-- The single failures inside a failure, each with its place. -/
def leaves : RunFailure → List (List Nat × RunFailure)
  | .several members => leavesFrom 0 members
  | e => [([], e)]

/-- The single failures inside members that are counted from a number on. -/
def leavesFrom (i : Nat) : List RunFailure → List (List Nat × RunFailure)
  | [] => []
  | e :: rest => e.leaves.map (fun leaf => (i :: leaf.1, leaf.2)) ++ leavesFrom (i + 1) rest

end

/-- All single failures that are found at places inside a failure, from left to right: places are in the
order of words. -/
structure IsFrontier (e : RunFailure) (leaves : List (List Nat × RunFailure)) : Prop where
  mem_iff : ∀ place leaf, (place, leaf) ∈ leaves ↔ e.at? place = some leaf ∧ leaf.IsSingle
  ordered : leaves.Pairwise fun left right => left.1 < right.1

/-- A single failure is its own only leaf. -/
theorem leaves_of_isSingle (h : e.IsSingle) : e.leaves = [([], e)] := by
  cases e with
  | several members => exact absurd h id
  | _ => rfl

theorem gathered_of_isSingle (h : e.IsSingle) : e.gathered = [] := by
  cases e with
  | several members => exact absurd h id
  | _ => rfl

/-- There is nothing inside a single failure. -/
theorem at?_eq_some_iff_of_isSingle (h : e.IsSingle) {place : List Nat} {leaf : RunFailure} :
    e.at? place = some leaf ↔ place = [] ∧ leaf = e := by
  cases place with
  | nil => simp [at?, eq_comm]
  | cons i place => simp [at?, gathered_of_isSingle h]

/-- A place below several failures is one below the member that it begins with. -/
theorem at?_several_cons_iff {members : List RunFailure} {i : Nat} {place : List Nat}
    {leaf : RunFailure} : (several members).at? (i :: place) = some leaf ↔
      ∃ member, members[i]? = some member ∧ member.at? place = some leaf := by
  simp [at?, gathered, Option.bind_eq_some_iff]

/-- A leaf below some members is one below one of them, its place having the number of that member
in front. -/
theorem mem_leavesFrom_iff {members : List RunFailure} {first : Nat} {place : List Nat}
    {leaf : RunFailure} : (place, leaf) ∈ leavesFrom first members ↔
      ∃ i member inner, members[i]? = some member ∧ (inner, leaf) ∈ member.leaves ∧
        place = (first + i) :: inner := by
  induction members generalizing first with
  | nil => simp [leavesFrom]
  | cons e rest ih =>
    rw [leavesFrom, List.mem_append, ih]
    constructor
    · rintro (hmem | ⟨i, member, inner, hmember, hinner, rfl⟩)
      · obtain ⟨⟨inner, leaf⟩, hinner, heq⟩ := List.mem_map.1 hmem
        cases heq
        exact ⟨0, e, inner, rfl, hinner, rfl⟩
      · exact ⟨i + 1, member, inner, hmember, hinner, by rw [Nat.add_right_comm, Nat.add_assoc]⟩
    · rintro ⟨i, member, inner, hmember, hinner, rfl⟩
      cases i with
      | zero =>
        cases hmember
        exact .inl (List.mem_map.2 ⟨_, hinner, rfl⟩)
      | succ i =>
        exact .inr ⟨i, member, inner, hmember, hinner, by rw [Nat.add_right_comm, Nat.add_assoc]⟩

/-- Leaves of members in front stand in front of those of members behind them. -/
theorem leavesFrom_ordered {members : List RunFailure} (first : Nat)
    (h : ∀ e ∈ members, e.leaves.Pairwise fun left right => left.1 < right.1) :
    (leavesFrom first members).Pairwise fun left right => left.1 < right.1 := by
  induction members generalizing first with
  | nil => exact .nil
  | cons e rest ih =>
    obtain ⟨he, hrest⟩ := List.forall_mem_cons.1 h
    rw [leavesFrom, List.pairwise_append, List.pairwise_map]
    refine ⟨he.imp fun hlt => List.cons_lt_cons_iff.2 (.inr ⟨rfl, hlt⟩), ih (first + 1) hrest, ?_⟩
    rintro _ hfront ⟨place, leaf⟩ hback
    obtain ⟨inner, -, rfl⟩ := List.mem_map.1 hfront
    obtain ⟨i, -, rest', -, -, rfl⟩ := mem_leavesFrom_iff.1 hback
    exact List.cons_lt_cons_iff.2 (.inl (by omega))

/-- The leaves are all single failures inside, in the order of their places. -/
theorem isFrontier_leaves (e : RunFailure) : e.IsFrontier e.leaves := by
  induction e using member_induction with
  | single e h =>
    refine ⟨fun place leaf => ?_, ?_⟩
    · rw [leaves_of_isSingle h, at?_eq_some_iff_of_isSingle h, List.mem_singleton, Prod.mk.injEq]
      exact ⟨fun heq => ⟨heq, heq.2 ▸ h⟩, And.left⟩
    · rw [leaves_of_isSingle h]
      exact List.pairwise_singleton _ _
  | several members ih =>
    refine ⟨fun place leaf => ?_, leavesFrom_ordered 0 fun e he => (ih e he).ordered⟩
    rw [leaves, mem_leavesFrom_iff]
    cases place with
    | nil =>
      -- the whole of a failure with members is no leaf
      refine iff_of_false ?_ ?_
      · rintro ⟨i, member, inner, -, -, hplace⟩
        cases hplace
      · rintro ⟨hat, hleaf⟩
        cases hat
        exact hleaf
    | cons i place =>
      rw [at?_several_cons_iff]
      constructor
      · rintro ⟨j, member, inner, hmember, hinner, hplace⟩
        obtain ⟨rfl, rfl⟩ : i = j ∧ place = inner := by simpa using hplace
        have hleaf := ((ih member (List.mem_of_getElem? hmember)).mem_iff place leaf).1 hinner
        exact ⟨⟨member, hmember, hleaf.1⟩, hleaf.2⟩
      · rintro ⟨⟨member, hmember, hat⟩, hleaf⟩
        have hinner := ((ih member (List.mem_of_getElem? hmember)).mem_iff place leaf).2 ⟨hat, hleaf⟩
        exact ⟨i, member, place, hmember, hinner, by rw [Nat.zero_add]⟩

theorem map_snd_leavesFrom (members : List RunFailure) (first : Nat) :
    (leavesFrom first members).map Prod.snd = members.flatMap fun e => e.leaves.map Prod.snd := by
  induction members generalizing first with
  | nil => rfl
  | cons e rest ih =>
    have he : (e.leaves.map fun leaf => (first :: leaf.1, leaf.2)).map Prod.snd =
        e.leaves.map Prod.snd := List.map_map
    rw [leavesFrom, List.map_append, he, ih, List.flatMap_cons]

/-- A failure conveys its leaves, however deep they are. -/
theorem conveys_leaves (e : RunFailure) : e.Conveys (e.leaves.map Prod.snd) := by
  induction e using member_induction with
  | single e h =>
    rw [leaves_of_isSingle h]
    exact conveys_self e
  | several members ih =>
    rw [leaves, map_snd_leavesFrom]
    exact Conveys.flatMap (by rw [List.map_id']; exact conveys_several members) ih

end RunFailure

/-! ## Gathering in groups -/

/-- A way to gather failures: one that stands for itself, or what is gathered in groups. -/
inductive Gathering where
  | failure (e : RunFailure)
  | group (parts : List Gathering)

namespace Gathering

/-- The one failure that is gathered. -/
def collected : Gathering → RunFailure
  | .failure e => e
  | .group parts => .collect (parts.map collected)

def failures : Gathering → List RunFailure
  | .failure e => [e]
  | .group parts => parts.flatMap failures

/-- However failures are gathered, the result conveys them in their order. -/
theorem conveys_collected (g : Gathering) : g.collected.Conveys g.failures := by
  fun_induction collected g with
  | case1 e =>
    rw [failures]
    exact RunFailure.conveys_self e
  | case2 parts ih =>
    rw [failures]
    exact (RunFailure.conveys_collect (parts.map collected)).flatMap ih

end Gathering

namespace RunFailure

/-- The messages of a failure are the texts of its leaves, from left to right, and it is fatal if one of
them ends its list.  So failures can be gathered in any groups, and groups of groups: neither the
messages nor fatality change. -/
theorem gathering_immaterial :
    (∀ e : RunFailure, e.IsFrontier e.leaves ∧
      e.messages = (e.leaves.map Prod.snd).map message ∧
      (e.isFatal = true ↔ ∃ leaf ∈ e.leaves.map Prod.snd, leaf.EndsList)) ∧
    (∀ failures : List RunFailure, (collect failures).Conveys failures) ∧
    ∀ g : Gathering, g.collected.messages = (collect g.failures).messages ∧
      g.collected.isFatal = (collect g.failures).isFatal := by
  refine ⟨fun e => ?_, conveys_collect, fun g => ?_⟩
  · have hsingle : ∀ leaf ∈ e.leaves.map Prod.snd, leaf.IsSingle := by
      intro leaf hmem
      obtain ⟨⟨place, leaf⟩, hleaf, rfl⟩ := List.mem_map.1 hmem
      exact (((isFrontier_leaves e).mem_iff place leaf).1 hleaf).2
    exact ⟨isFrontier_leaves e, (conveys_leaves e).messages_eq_map hsingle,
      (conveys_leaves e).isFatal_iff_endsList hsingle⟩
  · have hgrouped : g.collected.Conveys g.failures := g.conveys_collected
    have hflat : (collect g.failures).Conveys g.failures := conveys_collect g.failures
    exact ⟨hgrouped.messages_eq.trans hflat.messages_eq.symm,
      Bool.eq_iff_iff.2 (hgrouped.isFatal_iff.trans hflat.isFatal_iff.symm)⟩

/-- The failure inside of a step that failed is no leaf, and so it is not fatal for the list of the step. -/
example :
    let outer : RunFailure := .failed "1" "if" (.run (.unknownType "unheard" "1-then-0"))
    (several [outer, several [], several [.failed "2" "fail" (.action (.message "")), outer]]).leaves =
      [([0], outer), ([2, 0], .failed "2" "fail" (.action (.message ""))), ([2, 1], outer)] ∧
    outer.isFatal = false := ⟨rfl, rfl⟩

end RunFailure

end StepScript
