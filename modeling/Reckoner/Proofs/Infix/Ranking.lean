import Mathlib.Data.Set.Defs
import Reckoner.Proofs.Infix.Responses

/-!
# What a conversion takes from its table

A conversion asks its table about two kinds of characters: the one that is read, and those
that wait.  Both come from the text, for the markers that are put into it never reach the
table and never wait.  Of the fixities only the associativity of the new operator counts and
how its precedence compares with one that waits.  So two tables that rank the characters of
a text alike convert it alike, whatever else they hold, and also if they refuse it.
-/

namespace Reckoner

open Text Infix

/-- Only the associativity of the new operator counts, and how the two precedences compare. -/
theorem Fixity.yieldsTo_congr {waiting waiting' new new' : Fixity}
    (hassociativity : new.associativity = new'.associativity)
    (hle : new.precedence ≤ waiting.precedence ↔ new'.precedence ≤ waiting'.precedence)
    (hge : waiting.precedence ≤ new.precedence ↔ waiting'.precedence ≤ new'.precedence) :
    waiting.yieldsTo new = waiting'.yieldsTo new' := by
  rw [yieldsTo, yieldsTo, hassociativity]
  cases new'.associativity with
  | left => exact decide_eq_decide.mpr hle
  | right =>
      refine decide_eq_decide.mpr ?_
      rw [← Int.not_le, ← Int.not_le, hge]

namespace OperatorTable

/-- The two tables have the same operators among `chars`, which group to the same side and
whose precedences compare in the same way. -/
structure RanksAlike (t t' : OperatorTable) (chars : List Char) : Prop where
  contains_eq : ∀ c ∈ chars, t.contains c = t'.contains c
  associativity_eq : ∀ c ∈ chars, ∀ f ∈ t c, ∀ f' ∈ t' c, f.associativity = f'.associativity
  precedence_le_iff : ∀ a ∈ chars, ∀ b ∈ chars, ∀ f ∈ t a, ∀ f' ∈ t' a, ∀ g ∈ t b, ∀ g' ∈ t' b,
    f.precedence ≤ g.precedence ↔ f'.precedence ≤ g'.precedence

instance (t t' : OperatorTable) (chars : List Char) : Decidable (t.RanksAlike t' chars) :=
  -- over the list, and not over all characters there are
  have (p : Char → Prop) [DecidablePred p] : Decidable (∀ c ∈ chars, p c) :=
    List.decidableBAll p chars
  decidable_of_iff
    ((∀ c ∈ chars, t.contains c = t'.contains c) ∧
      (∀ c ∈ chars, ∀ f ∈ t c, ∀ f' ∈ t' c, f.associativity = f'.associativity) ∧
      ∀ a ∈ chars, ∀ b ∈ chars, ∀ f ∈ t a, ∀ f' ∈ t' a, ∀ g ∈ t b, ∀ g' ∈ t' b,
        (f.precedence ≤ g.precedence ↔ f'.precedence ≤ g'.precedence))
    ⟨fun ⟨hcontains, hassociativity, hle⟩ ↦ ⟨hcontains, hassociativity, hle⟩,
      fun h ↦ ⟨h.contains_eq, h.associativity_eq, h.precedence_le_iff⟩⟩

/-- The precedences that the table has given. -/
def precedences (t : OperatorTable) : Set Int :=
  {n | ∃ c, ∃ f ∈ t c, f.precedence = n}

/-- The table with every precedence replaced. -/
def renumber (t : OperatorTable) (number : Int → Int) : OperatorTable :=
  fun c ↦ (t c).map fun f ↦ { f with precedence := number f.precedence }

/-- The table with further entries, a later one before an earlier one. -/
def extend (t : OperatorTable) (entries : List (Char × Fixity)) : OperatorTable :=
  entries.foldl (fun u entry ↦ u.insert entry.1 entry.2) t

variable {t t' : OperatorTable} {chars : List Char} {c d : Char} {f f' : Fixity}

theorem RanksAlike.of_eq (h : ∀ c ∈ chars, t c = t' c) : t.RanksAlike t' chars where
  contains_eq c hc := by rw [contains, contains, h c hc]
  associativity_eq c hc f hf f' hf' := by
    obtain rfl : f = f' := Option.some.inj (hf.symm.trans ((h c hc).trans hf'))
    rfl
  precedence_le_iff a ha b hb f hf f' hf' g hg g' hg' := by
    obtain rfl : f = f' := Option.some.inj (hf.symm.trans ((h a ha).trans hf'))
    obtain rfl : g = g' := Option.some.inj (hg.symm.trans ((h b hb).trans hg'))
    rfl

theorem RanksAlike.renumber {number : Int → Int}
    (h : ∀ m ∈ t.precedences, ∀ n ∈ t.precedences, m < n → number m < number n)
    (chars : List Char) : (t.renumber number).RanksAlike t chars where
  contains_eq c _ := by rw [contains, contains, OperatorTable.renumber, Option.isSome_map]
  associativity_eq c _ f hf f' hf' := by
    obtain ⟨g, hg, rfl⟩ := Option.map_eq_some_iff.mp hf
    obtain rfl : g = f' := Option.some.inj (hg.symm.trans hf')
    rfl
  precedence_le_iff a _ b _ f hf f' hf' g hg g' hg' := by
    obtain ⟨k, hk, rfl⟩ := Option.map_eq_some_iff.mp hf
    obtain ⟨l, hl, rfl⟩ := Option.map_eq_some_iff.mp hg
    obtain rfl : k = f' := Option.some.inj (hk.symm.trans hf')
    obtain rfl : l = g' := Option.some.inj (hl.symm.trans hg')
    have hless := h k.precedence ⟨a, k, hk, rfl⟩ l.precedence ⟨b, l, hl, rfl⟩
    have hgreater := h l.precedence ⟨b, l, hl, rfl⟩ k.precedence ⟨a, k, hk, rfl⟩
    have hsame : k.precedence = l.precedence → number k.precedence = number l.precedence :=
      congrArg number
    change number k.precedence ≤ number l.precedence ↔ k.precedence ≤ l.precedence
    omega

theorem extend_of_notMem {entries : List (Char × Fixity)} (h : ∀ entry ∈ entries, entry.1 ≠ c) :
    t.extend entries c = t c := by
  induction entries generalizing t with
  | nil => rfl
  | cons entry entries ih =>
      obtain ⟨hentry, hentries⟩ := List.forall_mem_cons.mp h
      exact (ih hentries).trans (t.insert_of_ne entry.2 hentry.symm)

theorem RanksAlike.releases_eq (h : t.RanksAlike t' chars) (hc : c ∈ chars) (hd : d ∈ chars)
    (hf : t c = some f) (hf' : t' c = some f') : t.releases f d = t'.releases f' d := by
  have hcontains := h.contains_eq d hd
  rw [contains, contains] at hcontains
  rw [releases, releases]
  cases hg : t d with
  | none =>
      rw [hg, Option.isSome_none] at hcontains
      rw [Option.isNone_iff_eq_none.mp (Option.isSome_eq_false_iff.mp hcontains.symm)]
  | some g =>
      rw [hg, Option.isSome_some] at hcontains
      obtain ⟨g', hg'⟩ := Option.isSome_iff_exists.mp hcontains.symm
      have hassociativity := h.associativity_eq c hc f hf f' hf'
      have hle := h.precedence_le_iff c hc d hd f hf f' hf' g hg g' hg'
      have hge := h.precedence_le_iff d hd c hc g hg g' hg' f hf f' hf'
      simp only [hg']
      exact Fixity.yieldsTo_congr hassociativity hle hge

end OperatorTable

theorem Stack.popWhile_congr {α : Type} {p q : α → Bool} {s : Stack α}
    (h : ∀ a ∈ s.items, p a = q a) : s.popWhile p = s.popWhile q := by
  obtain ⟨items⟩ := s
  induction items with
  | nil => rfl
  | cons a items ih =>
      obtain ⟨ha, hrest⟩ := List.forall_mem_cons.mp h
      have hpop := ih hrest
      simp only [popWhile, Prod.mk.injEq, mk.injEq] at hpop ⊢
      rw [List.takeWhile_cons, List.takeWhile_cons, List.dropWhile_cons, List.dropWhile_cons, ha,
        hpop.1, hpop.2]
      exact ⟨rfl, rfl⟩

namespace Infix

variable {t t' : OperatorTable} {chars : List Char} {p q : Stack Char} {c d : Char}
  {a : List Char}

/-! ## What waits comes from the text -/

theorem mem_of_closeGroup (h : closeGroup p = .ok (a, q)) (hd : d ∈ q.items) : d ∈ p.items := by
  unfold closeGroup at h
  dsimp only at h
  split at h
  · next top outer hpop =>
      obtain ⟨-, rfl⟩ := Prod.mk.inj (Except.ok.inj h)
      have hstaying := Stack.pop?_eq_some_iff.mp hpop
      have hmem : d ∈ (p.popWhile (· != '(')).2.items := by
        rw [hstaying]
        exact List.mem_cons_of_mem top hd
      exact (List.dropWhile_sublist _).subset hmem
  · cases h

/-- Under any table nothing waits but what waited before and the character that is read. -/
theorem mem_of_respond (h : respond t p c = .ok (a, q)) (hd : d ∈ q.items) :
    d = c ∨ d ∈ p.items := by
  unfold respond at h
  split at h
  · obtain ⟨-, rfl⟩ := Prod.mk.inj (Except.ok.inj h)
    exact .inr hd
  split at h
  · obtain ⟨-, rfl⟩ := Prod.mk.inj (Except.ok.inj h)
    exact .inr hd
  split at h
  · next f _ =>
      obtain ⟨-, rfl⟩ := Prod.mk.inj (Except.ok.inj h)
      exact (List.mem_cons.mp hd).imp_right fun hmem ↦ (List.dropWhile_sublist _).subset hmem
  split at h
  · obtain ⟨-, rfl⟩ := Prod.mk.inj (Except.ok.inj h)
    exact List.mem_cons.mp hd
  split at h
  · exact .inr (mem_of_closeGroup h hd)
  · cases h

/-! ## Two conversions side by side -/

/-- One character has one response under both tables. -/
theorem respond_congr (h : t.RanksAlike t' chars) (hc : c ∈ chars)
    (hp : ∀ d ∈ p.items, d ∈ chars) : respond t p c = respond t' p c := by
  have hcontains := h.contains_eq c hc
  rw [OperatorTable.contains, OperatorTable.contains] at hcontains
  unfold respond
  cases hf : t c with
  | none =>
      rw [hf, Option.isSome_none] at hcontains
      rw [Option.isNone_iff_eq_none.mp (Option.isSome_eq_false_iff.mp hcontains.symm)]
  | some f =>
      rw [hf, Option.isSome_some] at hcontains
      obtain ⟨f', hf'⟩ := Option.isSome_iff_exists.mp hcontains.symm
      have hpop : p.popWhile (t.releases f) = p.popWhile (t'.releases f') :=
        Stack.popWhile_congr fun d hd ↦ h.releases_eq hc (hp d hd) hf hf'
      simp only [hf', hpop]

/-- A text of `chars` and markers is read alike as long as nothing but `chars` waits. -/
theorem emit_congr (h : t.RanksAlike t' chars) {x : List Char}
    (hx : ∀ c ∈ x, c = marker ∨ c ∈ chars) (hp : ∀ d ∈ p.items, d ∈ chars) :
    emit t p x = emit t' p x := by
  induction x generalizing p with
  | nil => rfl
  | cons c x ih =>
      obtain ⟨hc, hrest⟩ := List.forall_mem_cons.mp hx
      rw [emit_cons, emit_cons]
      rcases hc with rfl | hc
      · rw [respond_marker, respond_marker, ok_bind, ok_bind, ih hrest hp]
      · rw [respond_congr h hc hp]
        cases hnow : respond t' p c with
        | error e => rfl
        | ok now =>
            have hwaiting : ∀ d ∈ now.2.items, d ∈ chars := fun d hd ↦
              (mem_of_respond hnow hd).elim (fun heq ↦ heq ▸ hc) (hp d)
            rw [ok_bind, ok_bind, ih hrest hwaiting]

theorem toPostfix_eq_of_ranksAlike {text : String} (h : t.RanksAlike t' text.toList) :
    toPostfix t text = toPostfix t' text := by
  have hmarked : ∀ c ∈ markChars text.toList, c = marker ∨ c ∈ text.toList := fun c hc ↦ by
    by_cases hmarker : c = marker
    · exact .inl hmarker
    · exact .inr (mem_of_mem_markAfter hc hmarker)
  have hread : emit t .empty (markChars text.toList) = emit t' .empty (markChars text.toList) :=
    emit_congr h hmarked fun d hd ↦ absurd hd List.not_mem_nil
  rw [toPostfix, toPostfix, convert, convert, convertMarked_eq_emit, convertMarked_eq_emit, hread]

/-- Two tables that rank the characters of a text alike give it the same postfix form or the
same error.  In particular precedences may be renumbered in any way that keeps their order,
and operators that the text does not hold may be put into the table. -/
theorem toPostfix_ranking :
    (∀ (t t' : OperatorTable) (text : String), t.RanksAlike t' text.toList →
      toPostfix t text = toPostfix t' text) ∧
    (∀ (t : OperatorTable) (number : Int → Int),
      (∀ m ∈ t.precedences, ∀ n ∈ t.precedences, m < n → number m < number n) →
        ∀ text, toPostfix (t.renumber number) text = toPostfix t text) ∧
    ∀ (t : OperatorTable) (entries : List (Char × Fixity)) (text : String),
      (∀ entry ∈ entries, entry.1 ∉ text.toList) →
        toPostfix (t.extend entries) text = toPostfix t text := by
  refine ⟨fun t t' text h ↦ toPostfix_eq_of_ranksAlike h, fun t number h text ↦ ?_,
    fun t entries text h ↦ ?_⟩
  · exact toPostfix_eq_of_ranksAlike (.renumber h text.toList)
  · refine toPostfix_eq_of_ranksAlike (.of_eq fun c hc ↦ ?_)
    exact OperatorTable.extend_of_notMem fun entry hentry heq ↦ h entry hentry (heq ▸ hc)

/-- A table that ranks like `withPower` below zero, and has one more operator. -/
def loweredTable : OperatorTable :=
  ((OperatorTable.standard.renumber fun _ ↦ -4).insert '^' ⟨0, .right⟩).insert '!' ⟨7, .left⟩

theorem toPostfix_ranking_power :
    OperatorTable.withPower.RanksAlike loweredTable "2^3^(4-5)+6".toList ∧
      toPostfix loweredTable "2^3^(4-5)+6" = .ok "_ 2 _ 3 _ 4 _ 5 - ^ ^ _ 6 +" ∧
      (∀ m ∈ OperatorTable.withPower.precedences, ∀ n ∈ OperatorTable.withPower.precedences,
        m < n → 2 * m - 6 < 2 * n - 6) ∧
      toPostfix (OperatorTable.withPower.renumber fun n ↦ 2 * n - 6) "2-(3^4" =
        .error .mismatchedParentheses ∧
      (∀ entry ∈ [('!', (⟨7, .left⟩ : Fixity))], entry.1 ∉ "2-3#".toList) ∧
      toPostfix (OperatorTable.withPower.extend [('!', ⟨7, .left⟩)]) "2-3#" =
        .error (.unknownToken '#') := by
  obtain ⟨hranks, hrenumber, hextend⟩ := toPostfix_ranking
  have halike : OperatorTable.withPower.RanksAlike loweredTable "2^3^(4-5)+6".toList := by
    decide +kernel
  have hmono : ∀ m ∈ OperatorTable.withPower.precedences,
      ∀ n ∈ OperatorTable.withPower.precedences, m < n → 2 * m - 6 < 2 * n - 6 := by
    intro m _ n _ hlt
    omega
  have habsent : ∀ entry ∈ [('!', (⟨7, .left⟩ : Fixity))], entry.1 ∉ "2-3#".toList := by decide
  exact ⟨halike, (hranks _ _ _ halike).symm.trans (by decide), hmono,
    (hrenumber _ (2 * · - 6) hmono _).trans (by decide), habsent,
    (hextend _ _ _ habsent).trans (by decide)⟩

end Infix
end Reckoner
