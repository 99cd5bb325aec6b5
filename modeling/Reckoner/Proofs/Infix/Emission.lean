import Reckoner.Proofs.Infix.Tokens
import Reckoner.Proofs.Results

/-!
# What a text releases

A conversion only ever appends to what it has released, so what a text releases is a
function of what waits before it.  `emit` is that function; the scan, and with it the
whole conversion, is expressed by it.  Blanks release nothing, so a conversion
depends on the tokens of its text alone.
-/

namespace Reckoner
namespace Infix

open Text

/-- What a text releases, given what waits, and what waits after it. -/
def emit (t : OperatorTable) :
    Stack Char → List Char → Except SyntaxError (List Char × Stack Char)
  | pending, [] => .ok ([], pending)
  | pending, c :: text =>
    respond t pending c >>= fun now ↦
      (emit t now.2 text).map fun later ↦ (now.1 ++ later.1, later.2)

variable {t : OperatorTable} {p q r : Stack Char} {x y a b : List Char} {c : Char}

@[simp] theorem emit_nil : emit t p [] = .ok ([], p) := rfl

theorem emit_cons : emit t p (c :: x) =
    respond t p c >>= fun now ↦
      (emit t now.2 x).map fun later ↦ (now.1 ++ later.1, later.2) := rfl

theorem emit_cons_of_ok (hc : respond t p c = .ok (a, q)) (hx : emit t q x = .ok (b, r)) :
    emit t p (c :: x) = .ok (a ++ b, r) := by
  rw [emit_cons, hc, ok_bind, hx, map_ok]

theorem emit_cons_eq_ok_iff {out : List Char} :
    emit t p (c :: x) = .ok (out, r) ↔
      ∃ a q b, respond t p c = .ok (a, q) ∧ emit t q x = .ok (b, r) ∧ out = a ++ b := by
  constructor
  · intro h
    obtain ⟨⟨a, q⟩, hc, h⟩ := bind_eq_ok_iff.mp h
    obtain ⟨⟨b, s⟩, hx, h⟩ := map_eq_ok_iff.mp h
    obtain ⟨hout, rfl⟩ := Prod.mk.inj h
    exact ⟨a, q, b, hc, hx, hout.symm⟩
  · rintro ⟨a, q, b, hc, hx, rfl⟩
    exact emit_cons_of_ok hc hx

theorem emit_append :
    emit t p (x ++ y) =
      emit t p x >>= fun now ↦
        (emit t now.2 y).map fun later ↦ (now.1 ++ later.1, later.2) := by
  induction x generalizing p with
  | nil =>
      rw [List.nil_append, emit_nil, ok_bind]
      cases emit t p y <;> rfl
  | cons c x ih =>
      rw [List.cons_append, emit_cons, emit_cons]
      cases respond t p c with
      | error e => rfl
      | ok now =>
          rw [ok_bind, ok_bind, ih]
          cases emit t now.2 x with
          | error e => rfl
          | ok next =>
              rw [ok_bind, map_ok, ok_bind]
              cases emit t next.2 y with
              | error e => rfl
              | ok later => simp only [map_ok, List.append_assoc]

theorem emit_append_of_ok (hx : emit t p x = .ok (a, q)) (hy : emit t q y = .ok (b, r)) :
    emit t p (x ++ y) = .ok (a ++ b, r) := by
  rw [emit_append, hx, ok_bind, hy, map_ok]

theorem exists_of_emit_append_eq_ok {out : List Char} (h : emit t p (x ++ y) = .ok (out, r)) :
    ∃ a q b, emit t p x = .ok (a, q) ∧ emit t q y = .ok (b, r) ∧ out = a ++ b := by
  rw [emit_append] at h
  obtain ⟨⟨a, q⟩, hx, h⟩ := bind_eq_ok_iff.mp h
  obtain ⟨⟨b, s⟩, hy, h⟩ := map_eq_ok_iff.mp h
  obtain ⟨hout, rfl⟩ := Prod.mk.inj h
  exact ⟨a, q, b, hx, hy, hout.symm⟩

/-! ## Scans -/

theorem released_append_append (released : Array Char) (x y : List Char) :
    released ++ x ++ y = released ++ (x ++ y) := by
  apply Array.ext'
  simp

theorem run_eq_map_emit (s : Scan) (x : List Char) :
    s.run t x = (emit t s.pending x).map fun e ↦ ⟨s.released ++ e.1, e.2⟩ := by
  induction x generalizing s with
  | nil =>
      simp
  | cons c x ih =>
      rw [Scan.run_cons, emit_cons, Scan.step]
      cases respond t s.pending c with
      | error e => rfl
      | ok now =>
          rw [map_ok, ok_bind, ok_bind, ih]
          cases emit t now.2 x with
          | error e => rfl
          | ok later => simp only [map_ok, released_append_append]

theorem convertMarked_eq_emit (x : List Char) :
    convertMarked t x =
      emit t .empty x >>= fun e ↦
        if e.2.items.any isParenthesis then .error .mismatchedParentheses
        else .ok (e.1 ++ e.2.items) := by
  rw [convertMarked, run_eq_map_emit]
  change (emit t .empty x).map _ >>= _ = _
  cases emit t .empty x with
  | error e => rfl
  | ok e => simp [Scan.finish, Scan.start, -List.any_eq_true]

theorem convertMarked_of_emit (h : emit t .empty x = .ok (a, q))
    (hq : q.items.any isParenthesis = false) : convertMarked t x = .ok (a ++ q.items) := by
  rw [convertMarked_eq_emit, h, ok_bind, hq, if_neg Bool.false_ne_true]

theorem convertMarked_eq_ok_iff {out : List Char} :
    convertMarked t x = .ok out ↔
      ∃ a q, emit t .empty x = .ok (a, q) ∧ q.items.any isParenthesis = false ∧
        out = a ++ q.items := by
  constructor
  · intro h
    rw [convertMarked_eq_emit] at h
    obtain ⟨⟨a, q⟩, hx, h⟩ := bind_eq_ok_iff.mp h
    split at h
    · cases h
    · next hq => exact ⟨a, q, hx, by simpa using hq, (Except.ok.inj h).symm⟩
  · rintro ⟨a, q, hx, hq, rfl⟩
    exact convertMarked_of_emit hx hq

/-! ## Joined characters -/

theorem mem_of_mem_intersperse {α : Type} {a sep : α} {l : List α} (h : a ∈ l.intersperse sep) :
    a = sep ∨ a ∈ l := by
  induction l with
  | nil => cases h
  | cons x l ih =>
      cases l with
      | nil => exact .inr h
      | cons y l =>
          rw [List.intersperse_cons_cons, List.mem_cons, List.mem_cons] at h
          rcases h with rfl | rfl | h
          · exact .inr List.mem_cons_self
          · exact .inl rfl
          · exact (ih h).imp_right (List.mem_cons_of_mem x)

/-- Joined characters can be told apart again, even if there are spaces among them. -/
theorem spaced_injective : Function.Injective spaced := by
  intro x y h
  induction x generalizing y with
  | nil =>
      rcases y with _ | ⟨d, _ | ⟨d', y⟩⟩
      · rfl
      · cases h
      · cases h
  | cons c x ih =>
      rcases x with _ | ⟨c', x⟩ <;> rcases y with _ | ⟨d, _ | ⟨d', y⟩⟩
      · cases h
      · exact h
      · cases h
      · cases h
      · cases h
      · obtain ⟨rfl, hspace⟩ := List.cons.inj h
        rw [ih (List.cons.inj hspace).2]

theorem toPostfix_eq_ok_iff {text stream : String} :
    toPostfix t text = .ok stream ↔
      ∃ chars, convert t text.toList = .ok chars ∧ String.ofList (spaced chars) = stream :=
  map_eq_ok_iff

theorem toPostfix_eq_ok_spaced_iff {text : String} {chars : List Char} :
    toPostfix t text = .ok (String.ofList (spaced chars)) ↔
      convert t text.toList = .ok chars := by
  rw [toPostfix_eq_ok_iff]
  constructor
  · rintro ⟨chars', h, hstream⟩
    rwa [← spaced_injective (String.ofList_injective hstream)]
  · exact fun h ↦ ⟨chars, h, rfl⟩

/-! ## Blanks -/

theorem respond_blank (h : isBlank c = true) : respond t p c = .ok ([], p) := by
  simp [respond, h]

theorem emit_filter_visible (x : List Char) :
    emit t p (x.filter fun c ↦ !isBlank c) = emit t p x := by
  induction x generalizing p with
  | nil => rfl
  | cons c x ih =>
      cases hc : isBlank c with
      | true =>
          rw [List.filter_cons_of_neg (by simp [hc]), ih, emit_cons, respond_blank hc, ok_bind]
          cases emit t p x <;> rfl
      | false =>
          rw [List.filter_cons_of_pos (by simp [hc]), emit_cons, emit_cons]
          simp only [ih]

theorem convertMarked_congr {x y : List Char} (h : ∀ p, emit t p x = emit t p y) :
    convertMarked t x = convertMarked t y := by
  rw [convertMarked_eq_emit, convertMarked_eq_emit, h]

/-- A conversion reads the tokens of its text, whatever stands between them. -/
theorem convert_eq_convertMarked_tokens (text : List Char) :
    convert t text = convertMarked t ((tokens text).flatMap Token.marked) := by
  apply convertMarked_congr
  intro p
  rw [← filter_visible_markChars, emit_filter_visible]

theorem toPostfix_congr {text text' : String} (h : tokens text.toList = tokens text'.toList) :
    toPostfix t text = toPostfix t text' := by
  rw [toPostfix, toPostfix, convert_eq_convertMarked_tokens, h,
    ← convert_eq_convertMarked_tokens]

end Infix
end Reckoner
