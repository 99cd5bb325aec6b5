import Mathlib.Data.List.Induction
import Mathlib.Order.Bounds.Basic
import Reckoner.Stack.Run

/-!
# Pushes and pops that match

Which push a pop belongs to is a matter of the history alone: of the pushes before it
that no pop has been matched with, the latest.  The history is the list of commands with
their replies, where only a pop that gave an item takes part.  After any run the stack
holds what the unmatched pushes pushed, in the order of pushing, and every reply can be
read off the history; so a command that neither pushes nor takes an item away can be left
out of it.
-/

namespace Reckoner
namespace Stack

variable {α : Type}

/-- What happened in a run: each command with its reply. -/
abbrev History (α : Type) := List (Command α × Reply α)

def history (write : α → String) (commands : List (Command α)) : History α :=
  commands.zip ((replies write .empty commands).map Prod.fst)

def pushedBy? : Command α × Reply α → Option α
  | (.push a, _) => some a
  | _ => none

/-- Whether a step took an item away: a pop that did not fail. -/
def takes : Command α × Reply α → Bool
  | (.pop, .item _) => true
  | _ => false

namespace History

variable (h : History α)

/-- What step `i` pushed. -/
def pushed? (i : Nat) : Option α :=
  h[i]?.bind pushedBy?

def Takes (j : Nat) : Prop :=
  h[j]?.any takes = true

/-- The steps before step `n` that pushed an item which none of these steps has taken
away; each that takes one away is matched with the latest push. -/
def unmatched : Nat → Set Nat
  | 0 => ∅
  | n + 1 =>
    {i | i = n ∧ (h.pushed? n).isSome ∨
      i ∈ unmatched n ∧ ¬(h.Takes n ∧ IsGreatest (unmatched n) i)}

/-- Step `j` takes away what step `i` pushed. -/
def Matches (i j : Nat) : Prop :=
  h.Takes j ∧ IsGreatest (h.unmatched j) i

/-- How many of the first `n` steps pushed an item. -/
def pushes (n : Nat) : Nat :=
  (h.take n).countP fun step ↦ (pushedBy? step).isSome

/-- How many of the first `n` steps took an item away. -/
def pops (n : Nat) : Nat :=
  (h.take n).countP takes

/-- `items` is what the steps before `n` pushed that are unmatched, in the order of
pushing. -/
def Lists (n : Nat) (items : List α) : Prop :=
  ∃ places : List Nat, places.Pairwise (· < ·) ∧ (∀ i, i ∈ places ↔ i ∈ h.unmatched n) ∧
    places.map h.pushed? = items.map some

end History

/-- What step `n` is answered, said of the history before it. -/
inductive Answers (write : α → String) (h : History α) (n : Nat) :
    Command α → Reply α → Prop
  | push (a : α) : Answers write h n (.push a) .done
  | pop {i : Nat} {a : α} (hlatest : IsGreatest (h.unmatched n) i) (ha : h.pushed? i = some a) :
      Answers write h n .pop (.item a)
  | popFailed (hnone : h.unmatched n = ∅) : Answers write h n .pop (.failed .pop)
  | peek {i : Nat} {a : α} (hlatest : IsGreatest (h.unmatched n) i)
      (ha : h.pushed? i = some a) : Answers write h n .peek (.item a)
  | peekFailed (hnone : h.unmatched n = ∅) : Answers write h n .peek (.failed .peek)
  | size {k : Nat} (hcount : h.pops n + k = h.pushes n) : Answers write h n .size (.count k)
  | holdsAny : Answers write h n .holdsAny (.flag (decide (h.pops n < h.pushes n)))
  | contents {items : List α} (hitems : h.Lists n items) :
      Answers write h n .contents (.contents items)
  | describe {items : List α} (hitems : h.Lists n items) :
      Answers write h n .describe
        (.text ("Stack([" ++ ", ".intercalate (items.map write) ++ "])"))

variable {write : α → String} {h : History α} {s : Stack α} {command : Command α} {n i : Nat}

/-! ## The history of matches -/

namespace History

theorem lt_of_mem_unmatched (hi : i ∈ h.unmatched n) : i < n := by
  induction n with
  | zero => exact absurd hi (Set.notMem_empty i)
  | succ n ih =>
      rcases hi with ⟨rfl, -⟩ | ⟨hi, -⟩
      · exact Nat.lt_succ_self i
      · exact Nat.lt_succ_of_lt (ih hi)

/-- The unmatched pushes are those that no step has been matched with. -/
theorem mem_unmatched_iff :
    i ∈ h.unmatched n ↔
      i < n ∧ (h.pushed? i).isSome ∧ ∀ j, j < n → ¬h.Matches i j := by
  induction n with
  | zero => exact iff_of_false (Set.notMem_empty i) fun hi ↦ Nat.not_lt_zero i hi.1
  | succ n ih =>
      constructor
      · rintro (⟨rfl, hpushed⟩ | ⟨hi, hkept⟩)
        · refine ⟨Nat.lt_succ_self i, hpushed, fun j hj hmatch ↦ ?_⟩
          have hlt := lt_of_mem_unmatched hmatch.2.1
          omega
        · obtain ⟨hlt, hpushed, hfree⟩ := ih.mp hi
          refine ⟨Nat.lt_succ_of_lt hlt, hpushed, fun j hj ↦ ?_⟩
          rcases Nat.lt_succ_iff_lt_or_eq.mp hj with hj | rfl
          · exact hfree j hj
          · exact hkept
      · rintro ⟨hlt, hpushed, hfree⟩
        rcases Nat.lt_succ_iff_lt_or_eq.mp hlt with hlt | rfl
        · exact .inr ⟨ih.mpr ⟨hlt, hpushed, fun j hj ↦ hfree j (Nat.lt_succ_of_lt hj)⟩,
            hfree n (Nat.lt_succ_self n)⟩
        · exact .inl ⟨rfl, hpushed⟩

/-! ## One step -/

variable {step : Command α × Reply α} {items : List α} {a : α}

theorem pushed?_eq (hstep : h[n]? = some step) : h.pushed? n = pushedBy? step := by
  rw [pushed?, hstep, Option.bind_some]

theorem takes_iff (hstep : h[n]? = some step) : h.Takes n ↔ takes step = true := by
  rw [Takes, hstep, Option.any_some]

theorem mem_unmatched_of_push (hstep : h[n]? = some step) (hpush : pushedBy? step = some a)
    (htakes : takes step = false) : i ∈ h.unmatched (n + 1) ↔ i ∈ h.unmatched n ∨ i = n := by
  have hpushed : (h.pushed? n).isSome = true := by
    rw [pushed?_eq hstep, hpush]
    rfl
  have hstays : ¬h.Takes n := by simp [takes_iff hstep, htakes]
  simp only [unmatched, Set.mem_ofPred_eq, hpushed, hstays, and_true, false_and, not_false_eq_true,
    or_comm]

theorem mem_unmatched_of_takes (hstep : h[n]? = some step) (hpush : pushedBy? step = none)
    (htakes : takes step = true) :
    i ∈ h.unmatched (n + 1) ↔ i ∈ h.unmatched n ∧ ¬IsGreatest (h.unmatched n) i := by
  have hpushed : (h.pushed? n).isSome = false := by
    rw [pushed?_eq hstep, hpush]
    rfl
  have htaken : h.Takes n := (takes_iff hstep).mpr htakes
  simp [unmatched, hpushed, htaken]

theorem unmatched_of_neither (hstep : h[n]? = some step) (hpush : pushedBy? step = none)
    (htakes : takes step = false) : h.unmatched (n + 1) = h.unmatched n := by
  have hpushed : (h.pushed? n).isSome = false := by
    rw [pushed?_eq hstep, hpush]
    rfl
  have hstays : ¬h.Takes n := by simp [takes_iff hstep, htakes]
  simp [unmatched, hpushed, hstays]

theorem pushes_succ (hstep : h[n]? = some step) :
    h.pushes (n + 1) = h.pushes n + if (pushedBy? step).isSome then 1 else 0 := by
  rw [pushes, List.take_add_one, hstep, List.countP_append, Option.toList_some,
    List.countP_singleton, pushes]

theorem pops_succ (hstep : h[n]? = some step) :
    h.pops (n + 1) = h.pops n + if takes step then 1 else 0 := by
  rw [pops, List.take_add_one, hstep, List.countP_append, Option.toList_some,
    List.countP_singleton, pops]

namespace Lists

theorem eq_empty (hlists : h.Lists n []) : h.unmatched n = ∅ := by
  obtain ⟨places, -, hmem, hitems⟩ := hlists
  obtain rfl := List.map_eq_nil_iff.mp hitems
  exact Set.eq_empty_of_forall_notMem fun i hi ↦ List.not_mem_nil ((hmem i).mpr hi)

/-- The last item is that of the latest push. -/
theorem exists_split (hlists : h.Lists n (items ++ [a])) :
    ∃ (places : List Nat) (i : Nat), (∀ j ∈ places, j < i) ∧ places.Pairwise (· < ·) ∧
      (∀ j, j ∈ h.unmatched n ↔ j ∈ places ∨ j = i) ∧ h.pushed? i = some a ∧
      places.map h.pushed? = items.map some := by
  obtain ⟨all, hsorted, hmem, hitems⟩ := hlists
  rw [List.map_append, List.map_singleton] at hitems
  obtain ⟨places, last, rfl, hplaces, hlast⟩ := List.map_eq_append_iff.mp hitems
  obtain ⟨i, rfl, hi⟩ := List.map_eq_singleton_iff.mp hlast
  obtain ⟨hsorted, -, hbelow⟩ := List.pairwise_append.mp hsorted
  refine ⟨places, i, fun j hj ↦ hbelow j hj i (List.mem_singleton_self i), hsorted, fun j ↦ ?_, hi,
    hplaces⟩
  rw [← hmem, List.mem_append, List.mem_singleton]

theorem isGreatest_of_split {places : List Nat} (hbelow : ∀ j ∈ places, j < i)
    (hmem : ∀ j, j ∈ h.unmatched n ↔ j ∈ places ∨ j = i) : IsGreatest (h.unmatched n) i := by
  refine ⟨(hmem i).mpr (.inr rfl), fun j hj ↦ ?_⟩
  rcases (hmem j).mp hj with hj | rfl
  · exact Nat.le_of_lt (hbelow j hj)
  · exact Nat.le_refl j

theorem exists_isGreatest (hlists : h.Lists n (items ++ [a])) :
    ∃ i, IsGreatest (h.unmatched n) i ∧ h.pushed? i = some a := by
  obtain ⟨places, i, hbelow, -, hmem, hi, -⟩ := hlists.exists_split
  exact ⟨i, isGreatest_of_split hbelow hmem, hi⟩

theorem push (hlists : h.Lists n items) (hstep : h[n]? = some step)
    (hpush : pushedBy? step = some a) (htakes : takes step = false) :
    h.Lists (n + 1) (items ++ [a]) := by
  obtain ⟨places, hsorted, hmem, hitems⟩ := hlists
  refine ⟨places ++ [n], ?_, fun i ↦ ?_, ?_⟩
  · refine List.pairwise_append.mpr ⟨hsorted, List.pairwise_singleton _ n, fun i hi j hj ↦ ?_⟩
    rw [List.mem_singleton.mp hj]
    exact lt_of_mem_unmatched ((hmem i).mp hi)
  · rw [mem_unmatched_of_push hstep hpush htakes, ← hmem, List.mem_append, List.mem_singleton]
  · rw [List.map_append, List.map_append, hitems, List.map_singleton, List.map_singleton,
      pushed?_eq hstep, hpush]

theorem pop (hlists : h.Lists n (items ++ [a])) (hstep : h[n]? = some step)
    (hpush : pushedBy? step = none) (htakes : takes step = true) : h.Lists (n + 1) items := by
  obtain ⟨places, i, hbelow, hsorted, hmem, -, hitems⟩ := hlists.exists_split
  have hlatest := isGreatest_of_split hbelow hmem
  refine ⟨places, hsorted, fun j ↦ ?_, hitems⟩
  rw [mem_unmatched_of_takes hstep hpush htakes, hmem]
  constructor
  · exact fun hj ↦ ⟨.inl hj, fun hgreatest ↦
      Nat.ne_of_lt (hbelow j hj) (hgreatest.unique hlatest)⟩
  · rintro ⟨hj | rfl, hother⟩
    · exact hj
    · exact absurd hlatest hother

theorem keep (hlists : h.Lists n items) (hstep : h[n]? = some step)
    (hpush : pushedBy? step = none) (htakes : takes step = false) : h.Lists (n + 1) items := by
  rwa [Lists, unmatched_of_neither hstep hpush htakes]

end Lists

/-- The stack after the first `n` steps is what the history before step `n` says. -/
structure Shows (h : History α) (n : Nat) (s : Stack α) : Prop where
  lists : h.Lists n s.toList
  count : h.pops n + s.size = h.pushes n

namespace Shows

theorem start (h : History α) : h.Shows 0 .empty where
  lists := ⟨[], .nil, fun i ↦ by simp [unmatched], rfl⟩
  count := rfl

theorem keep (hs : h.Shows n s) (hstep : h[n]? = some step) (hpush : pushedBy? step = none)
    (htakes : takes step = false) : h.Shows (n + 1) s where
  lists := hs.lists.keep hstep hpush htakes
  count := by
    rw [pushes_succ hstep, pops_succ hstep, hpush, htakes]
    exact hs.count

theorem push (hs : h.Shows n s) (hstep : h[n]? = some (.push a, .done)) :
    h.Shows (n + 1) (s.push a) where
  lists := by
    rw [toList_push]
    exact hs.lists.push hstep rfl rfl
  count := by
    have hcount := hs.count
    rw [pushes_succ hstep, pops_succ hstep, size_push]
    simp only [pushedBy?, takes, Option.isSome_some, if_true, Bool.false_eq_true, if_false]
    omega

theorem pop (hs : h.Shows n (s.push a)) (hstep : h[n]? = some (.pop, .item a)) :
    h.Shows (n + 1) s where
  lists := Lists.pop (toList_push s a ▸ hs.lists) hstep rfl rfl
  count := by
    have hcount := hs.count
    rw [size_push] at hcount
    rw [pushes_succ hstep, pops_succ hstep]
    simp only [pushedBy?, takes, Option.isSome_none, if_true, Bool.false_eq_true, if_false]
    omega

/-- A step is answered from the history before it, and the stack after it is what the
history says then. -/
theorem answers (hs : h.Shows n s) (hstep : h[n]? = some (command, (s.step write command).2)) :
    Answers write h n command (s.step write command).2 ∧
      h.Shows (n + 1) (s.step write command).1 := by
  have hcount := hs.count
  cases command with
  | push a => exact ⟨.push a, hs.push hstep⟩
  | pop =>
      cases htop : s.pop? with
      | none =>
          obtain rfl := pop?_eq_none_iff.mp htop
          exact ⟨.popFailed hs.lists.eq_empty, hs.keep hstep rfl rfl⟩
      | some top =>
          obtain ⟨a, rest⟩ := top
          obtain rfl := pop?_eq_some_iff.mp htop
          obtain ⟨i, hlatest, hi⟩ := (toList_push rest a ▸ hs.lists).exists_isGreatest
          exact ⟨.pop hlatest hi, hs.pop hstep⟩
  | peek =>
      cases htop : s.pop? with
      | none =>
          obtain rfl := pop?_eq_none_iff.mp htop
          exact ⟨.peekFailed hs.lists.eq_empty, hs.keep hstep rfl rfl⟩
      | some top =>
          obtain ⟨a, rest⟩ := top
          obtain rfl := pop?_eq_some_iff.mp htop
          obtain ⟨i, hlatest, hi⟩ := (toList_push rest a ▸ hs.lists).exists_isGreatest
          exact ⟨.peek hlatest hi, hs.keep hstep rfl rfl⟩
  | size => exact ⟨.size hcount, hs.keep hstep rfl rfl⟩
  | holdsAny =>
      refine ⟨?_, hs.keep hstep rfl rfl⟩
      have hflag : (!s.isEmpty) = decide (h.pops n < h.pushes n) := by
        rw [← hcount]
        cases s with
        | mk items => cases items <;> simp [isEmpty, size]
      rw [Stack.step, hflag]
      exact .holdsAny
  | contents => exact ⟨.contents hs.lists, hs.keep hstep rfl rfl⟩
  | describe => exact ⟨.describe hs.lists, hs.keep hstep rfl rfl⟩

end Shows
end History

/-! ## Whole runs -/

variable {before later : List (Command α)}

theorem after_concat (write : α → String) (s : Stack α) (before : List (Command α))
    (command : Command α) :
    after write s (before ++ [command]) = ((after write s before).step write command).1 := by
  rw [after, List.foldl_append, after]
  rfl

theorem length_replies (write : α → String) (s : Stack α) (commands : List (Command α)) :
    (replies write s commands).length = commands.length := by
  induction commands generalizing s with
  | nil => rfl
  | cons command rest ih => exact congrArg Nat.succ (ih _)

theorem replies_append (write : α → String) (s : Stack α) (before later : List (Command α)) :
    replies write s (before ++ later) =
      replies write s before ++ replies write (after write s before) later := by
  induction before generalizing s with
  | nil => rfl
  | cons command before ih => exact congrArg (List.cons _) (ih _)

/-- What a command is answered that stands between others. -/
theorem getElem?_replies_append (write : α → String) (before later : List (Command α))
    (command : Command α) :
    (replies write .empty (before ++ command :: later))[before.length]? =
      some (((after write .empty before).step write command).2,
        ((after write .empty before).step write command).1.size) := by
  rw [replies_append, ← length_replies write .empty before, List.getElem?_append_right le_rfl,
    Nat.sub_self]
  rfl

theorem getElem?_history_append (write : α → String) (before later : List (Command α))
    (command : Command α) :
    (history write (before ++ command :: later))[before.length]? =
      some (command, ((after write .empty before).step write command).2) := by
  rw [history, List.getElem?_zip_eq_some, List.getElem?_map, getElem?_replies_append]
  exact ⟨by simp, rfl⟩

theorem shows_after (write : α → String) (before later : List (Command α)) :
    (history write (before ++ later)).Shows before.length (after write .empty before) := by
  induction before using List.reverseRecOn generalizing later with
  | nil => exact .start _
  | append_singleton before command ih =>
      have hstep := getElem?_history_append write before later command
      rw [List.append_assoc, List.singleton_append, List.length_append, after_concat]
      exact ((ih (command :: later)).answers hstep).2

/-- A command that pushes nothing and takes nothing away leaves the stack alone. -/
theorem step_eq_self (s : Stack α)
    (hpush : pushedBy? (command, (s.step write command).2) = none)
    (htakes : takes (command, (s.step write command).2) = false) :
    (s.step write command).1 = s := by
  cases command with
  | push a => cases hpush
  | pop =>
      cases htop : s.pop? with
      | none => simp [Stack.step, htop]
      | some top => simp [Stack.step, htop, takes] at htakes
  | peek => cases htop : s.peek? <;> simp [Stack.step, htop]
  | _ => rfl

/-- Every reply of a run is what the history before it says: a pop or a peek gives the item
of the latest push that no pop has been matched with, and fails if there is none, and the
other questions are answered from the unmatched pushes, in the order of pushing.  The size
after every step is the number of pushes less that of the pops that took an item.  Without
a command that pushed and took nothing, such as one that failed, the other replies are the
same. -/
theorem replies_from_history (write : α → String) (commands : List (Command α)) :
    let h := history write commands
    (replies write .empty commands).length = commands.length ∧
    (∀ i n, i ∈ h.unmatched n ↔
      i < n ∧ (h.pushed? i).isSome ∧ ∀ j, j < n → ¬h.Matches i j) ∧
    ∀ before command later, commands = before ++ command :: later →
      ∃ reply size, (replies write .empty commands)[before.length]? = some (reply, size) ∧
        Answers write h before.length command reply ∧
        h.pops (before.length + 1) + size = h.pushes (before.length + 1) ∧
        (pushedBy? (command, reply) = none → takes (command, reply) = false →
          after write .empty (before ++ [command]) = after write .empty before ∧
          (replies write .empty commands).eraseIdx before.length =
            replies write .empty (before ++ later)) := by
  intro h
  refine ⟨length_replies write .empty commands, fun i n ↦ History.mem_unmatched_iff, ?_⟩
  rintro before command later rfl
  obtain ⟨hanswers, hshows⟩ := (shows_after write before (command :: later)).answers
    (getElem?_history_append write before later command)
  refine ⟨_, _, getElem?_replies_append write before later command, hanswers, hshows.count, ?_⟩
  intro hpush htakes
  have hself := step_eq_self _ hpush htakes
  refine ⟨(after_concat write .empty before command).trans hself, ?_⟩
  rw [replies_append, ← length_replies write .empty before,
    List.eraseIdx_append_of_length_le le_rfl, Nat.sub_self, replies_append]
  change _ ++ replies write (Stack.step write _ command).1 later = _
  rw [hself]

theorem replies_from_history_failed_pop :
    (replies Nat.repr .empty [.push 7, .pop, .pop, .push 8, .peek])[2]? =
        some (.failed .pop, 0) ∧
      (history Nat.repr [.push 7, .pop, .pop, .push 8, .peek]).unmatched 2 = ∅ ∧
      (replies Nat.repr .empty [.push 7, .pop, .pop, .push 8, .peek]).eraseIdx 2 =
        replies Nat.repr .empty [.push 7, .pop, .push 8, .peek] := by
  have hfailed : (replies Nat.repr .empty [.push 7, .pop, .pop, .push 8, .peek])[2]? =
      some (.failed .pop, 0) := rfl
  obtain ⟨-, -, hsteps⟩ := replies_from_history Nat.repr [.push 7, .pop, .pop, .push 8, .peek]
  obtain ⟨reply, size, hreply, hanswers, -, hleft⟩ :=
    hsteps [.push 7, .pop] .pop [.push 8, .peek] rfl
  obtain ⟨rfl, rfl⟩ := Prod.mk.inj (Option.some.inj (hfailed.symm.trans hreply))
  refine ⟨hfailed, ?_, (hleft rfl rfl).2⟩
  cases hanswers with
  | popFailed hnone => exact hnone

end Stack
end Reckoner
