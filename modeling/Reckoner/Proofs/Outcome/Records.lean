import Reckoner.Outcome.Assignment
import Reckoner.Proofs.Results

/-!
# Records from fields

A record results from fields exactly if every one of its own fields can be read.  If not,
each that cannot be read is named with what is wrong, once and in the order of declaration.
Only what stands last under a declared name counts, and a default is a value like any
other, which may be left out.  So an outcome reads back from its own fields, and whatever
an expression comes to is an outcome that passes this reading.  Afterwards no assignment
changes it, except one that puts a table in place of all its fields.
-/

namespace Reckoner

variable {α : Type} {fields fields' : Fields} {name : String} {default? : Option α} {a : α}
  {reads : Datum → Except Problem α} {p : FieldProblem} {problems : List FieldProblem}
  {d : Datum} {b : Bool} {o : Outcome}

/-! ## Reading one field -/

namespace Fields

/-- The later fields count first. -/
theorem find?_append (fields later : Fields) (name : String) :
    Fields.find? (fields ++ later) name = (later.find? name).or (fields.find? name) := by
  rw [Fields.find?, List.reverse_append, List.find?_append, Option.map_or]
  rfl

theorem find?_append_of_some {later : Fields} (h : later.find? name = some d)
    (fields : Fields) : Fields.find? (fields ++ later) name = some d := by
  rw [find?_append, h, Option.some_or]

theorem find?_filter (keep : String → Bool) (h : keep name = true) (fields : Fields) :
    Fields.find? (fields.filter fun entry ↦ keep entry.1) name = fields.find? name := by
  have hkeep : ∀ entry : String × Datum,
      decide (keep entry.1 = true ∧ (entry.1 == name) = true) = (entry.1 == name) := by
    intro entry
    by_cases hname : entry.1 = name
    · simp [hname, h]
    · simp [hname]
  rw [Fields.find?, ← List.filter_reverse, List.find?_filter, funext hkeep]
  rfl

theorem read_of_some (h : fields.find? name = some d) :
    fields.read name default? reads = (reads d).mapError fun problem ↦ ⟨name, problem⟩ := by
  unfold read
  rw [h]

theorem read_of_none (h : fields.find? name = none) :
    fields.read name default? reads =
      match default? with
      | some a => .ok a
      | none => .error ⟨name, .missing⟩ := by
  unfold read
  rw [h]
  cases default? <;> rfl

theorem read_congr (h : fields.find? name = fields'.find? name) :
    fields.read name default? reads = fields'.read name default? reads := by
  cases hfind : fields.find? name with
  | some datum => rw [read_of_some hfind, read_of_some (h ▸ hfind)]
  | none => rw [read_of_none hfind, read_of_none (h ▸ hfind)]

/-- A field is read from the value that it is given, or has its default. -/
theorem read_eq_ok_iff :
    fields.read name default? reads = .ok a ↔
      (∃ datum, fields.find? name = some datum ∧ reads datum = .ok a) ∨
        fields.find? name = none ∧ default? = some a := by
  cases hfind : fields.find? name with
  | some datum =>
      rw [read_of_some hfind, mapError_eq_ok_iff]
      simp
  | none =>
      rw [read_of_none hfind]
      cases default? <;> simp

/-- What is wrong with a field is named after it: what is wrong with its value, or that
there is none. -/
theorem read_eq_error_iff :
    fields.read name default? reads = .error p ↔
      p.field = name ∧
        ((∃ datum, fields.find? name = some datum ∧ reads datum = .error p.problem) ∨
          fields.find? name = none ∧ default? = none ∧ p.problem = .missing) := by
  obtain ⟨field, problem⟩ := p
  cases hfind : fields.find? name with
  | some datum =>
      rw [read_of_some hfind, mapError_eq_error_iff]
      constructor
      · rintro ⟨_, hread, hproblem⟩
        cases hproblem
        exact ⟨rfl, .inl ⟨datum, rfl, hread⟩⟩
      · rintro ⟨rfl, ⟨_, hdatum, hread⟩ | ⟨hnone, -⟩⟩
        · cases hdatum
          exact ⟨problem, hread, rfl⟩
        · cases hnone
  | none =>
      rw [read_of_none hfind]
      cases default? <;> simp [eq_comm]

theorem find?_cons_of_ne {other : String} (h : other ≠ name) (d : Datum) (fields : Fields) :
    Fields.find? ((other, d) :: fields) name = fields.find? name := by
  rw [← List.singleton_append, find?_append]
  simp [Fields.find?, h]

/-- To give a field its default in front of all others is to leave it out. -/
theorem read_default (h : reads d = .ok a) (fields : Fields) :
    Fields.read ((name, d) :: fields) name (some a) reads = fields.read name (some a) reads := by
  have hfind : Fields.find? ((name, d) :: fields) name = (fields.find? name).or (some d) := by
    rw [← List.singleton_append, find?_append]
    simp [Fields.find?]
  cases hname : fields.find? name with
  | some datum =>
      rw [hname] at hfind
      rw [read_of_some hname, read_of_some hfind]
  | none =>
      rw [hname] at hfind
      rw [read_of_none hname, read_of_some hfind, h]
      rfl

end Fields

theorem mem_problemOf_iff {result : Except FieldProblem α} :
    p ∈ problemOf result ↔ result = .error p := by
  cases result <;> simp [problemOf, eq_comm]

theorem problemOf_eq_nil_iff {result : Except FieldProblem α} :
    problemOf result = [] ↔ ∃ a, result = .ok a := by
  cases result <;> simp [problemOf]

/-! ## What counts as text and as a flag -/

namespace Datum

theorem toText_eq_ok_iff {s : String} : d.toText = .ok s ↔ d = .text s := by
  cases d <;> simp [toText]

theorem flagOfWhole_eq_ok_iff {n : Int} : flagOfWhole n = .ok b ↔ n = if b then 1 else 0 := by
  unfold flagOfWhole
  split
  · next hzero => cases b <;> simp [hzero]
  · next hzero => split <;> cases b <;> simp_all

/-- No name is one of both flags. -/
theorem flagOfName_eq_ok_iff :
    flagOfName name = .ok b ↔ name ∈ if b then trueNames else falseNames := by
  have hdisjoint : ∀ name ∈ falseNames, name ∉ trueNames := by decide
  unfold flagOfName
  simp only [List.contains_iff_mem]
  by_cases hfalse : name ∈ falseNames
  · cases b <;> simp [hfalse, hdisjoint name hfalse]
  · by_cases htrue : name ∈ trueNames <;> cases b <;> simp [hfalse, htrue]

theorem whole?_ofBool (b : Bool) : (Binary64.ofBool b).whole? = some (if b then 1 else 0) := by
  cases b <;> decide +kernel

/-- What is no text and counts as a flag counts as the number of this flag too. -/
theorem exists_toNumber_of_toFlag (h : d.toFlag = .ok b) (htext : ∀ s, d ≠ .text s) :
    ∃ x, d.toNumber = .ok x ∧ x.whole? = some (if b then 1 else 0) := by
  cases d with
  | flag c =>
      obtain rfl := Except.ok.inj h
      exact ⟨_, rfl, whole?_ofBool c⟩
  | whole n =>
      simp only [toFlag] at h
      split at h
      · have hround : ∀ b : Bool, Binary64.ofInt (if b then 1 else 0) = .ofBool b := by
          decide +kernel
        refine ⟨.ofBool b, ?_, whole?_ofBool b⟩
        rw [flagOfWhole_eq_ok_iff.mp h]
        change numberInRange (.ofInt _) = _
        rw [hround]
        cases b <;> rfl
      · cases h
  | number x =>
      refine ⟨x, rfl, ?_⟩
      simp only [toFlag] at h
      split at h
      · next n hwhole =>
          split at h
          · rw [hwhole, flagOfWhole_eq_ok_iff.mp h]
          · cases h
      · cases h
  | text s => exact absurd rfl (htext s)
  | null => cases h
  | list items => cases h
  | table entries => cases h

end Datum

/-! ## Reading an outcome -/

namespace Outcome

/-- The names of the fields, in the order of declaration. -/
def fieldNames : List String :=
  ["success", "value", "message"]

/-- An outcome as fields. -/
def toFields (o : Outcome) : Fields :=
  [("success", .flag o.success), ("value", .number o.value), ("message", .text o.message)]

theorem ofFields_eq_ok_iff :
    ofFields fields = .ok o ↔
      fields.read "success" none Datum.toFlag = .ok o.success ∧
      fields.read "value" (some .zero) Datum.toNumber = .ok o.value ∧
      fields.read "message" (some "") Datum.toText = .ok o.message := by
  obtain ⟨success, value, message⟩ := o
  unfold ofFields
  cases fields.read "success" none Datum.toFlag <;>
    cases fields.read "value" (some .zero) Datum.toNumber <;>
      cases fields.read "message" (some "") Datum.toText <;> simp

theorem problems_eq (h : ofFields fields = .error problems) :
    problems = problemOf (fields.read "success" none Datum.toFlag) ++
      problemOf (fields.read "value" (some .zero) Datum.toNumber) ++
      problemOf (fields.read "message" (some "") Datum.toText) := by
  simp only [ofFields] at h
  split at h
  · cases h
  · exact (Except.error.inj h).symm

/-- All that is wrong with a field is named, and nothing else. -/
theorem mem_problems_iff (h : ofFields fields = .error problems) :
    p ∈ problems ↔
      fields.read "success" none Datum.toFlag = .error p ∨
      fields.read "value" (some .zero) Datum.toNumber = .error p ∨
      fields.read "message" (some "") Datum.toText = .error p := by
  simp only [problems_eq h, List.mem_append, mem_problemOf_iff, or_assoc]

theorem map_field_problemOf (fields : Fields) (name : String) (default? : Option α)
    (reads : Datum → Except Problem α) :
    ((problemOf (fields.read name default? reads)).map FieldProblem.field).Sublist [name] := by
  cases hread : fields.read name default? reads with
  | ok a => exact List.nil_sublist _
  | error p =>
      have hfield := (Fields.read_eq_error_iff.mp hread).1
      change List.Sublist [p.field] [name]
      exact hfield ▸ List.Sublist.refl _

/-- The fields that are wrong are declared ones, at least one, each once and in order. -/
theorem fields_of_problems (h : ofFields fields = .error problems) :
    problems ≠ [] ∧ (problems.map FieldProblem.field).Sublist fieldNames := by
  constructor
  · rintro rfl
    have hnone := (problems_eq h).symm
    rw [List.append_eq_nil_iff, List.append_eq_nil_iff] at hnone
    simp only [problemOf_eq_nil_iff] at hnone
    obtain ⟨⟨⟨success, hsuccess⟩, value, hvalue⟩, message, hmessage⟩ := hnone
    have hok := ofFields_eq_ok_iff (o := ⟨success, value, message⟩).mpr
      ⟨hsuccess, hvalue, hmessage⟩
    cases h.symm.trans hok
  · rw [problems_eq h, List.map_append, List.map_append]
    exact ((map_field_problemOf _ _ _ _).append (map_field_problemOf _ _ _ _)).append
      (map_field_problemOf _ _ _ _)

/-- Nothing is read but what the declared names stand for. -/
theorem ofFields_congr (h : ∀ name ∈ fieldNames, fields.find? name = fields'.find? name) :
    ofFields fields = ofFields fields' := by
  have hsuccess := h "success" (by decide)
  have hvalue := h "value" (by decide)
  have hmessage := h "message" (by decide)
  rw [ofFields, ofFields, Fields.read_congr hsuccess, Fields.read_congr hvalue,
    Fields.read_congr hmessage]

/-- Fields of other names are passed over. -/
theorem ofFields_filter (fields : Fields) :
    ofFields (fields.filter fun entry ↦ fieldNames.contains entry.1) = ofFields fields :=
  ofFields_congr fun _ hname ↦
    Fields.find?_filter fieldNames.contains (List.contains_iff_mem.mpr hname) fields

/-- Both defaults pass the reading of their fields: whether they are given or left out makes
no difference. -/
theorem ofFields_defaults (fields : Fields) :
    ofFields (("value", .number .zero) :: ("message", .text "") :: fields) = ofFields fields := by
  have hsuccess : Fields.find? (("value", .number .zero) :: ("message", .text "") :: fields)
      "success" = fields.find? "success" := by
    rw [Fields.find?_cons_of_ne (by decide), Fields.find?_cons_of_ne (by decide)]
  have hvalue : Fields.find? (("message", .text "") :: fields) "value" = fields.find? "value" :=
    Fields.find?_cons_of_ne (by decide) _ _
  have hmessage : Fields.find? (("value", .number .zero) :: ("message", .text "") :: fields)
      "message" = Fields.find? (("message", .text "") :: fields) "message" :=
    Fields.find?_cons_of_ne (by decide) _ _
  have hzero : Datum.toNumber (.number .zero) = .ok .zero := rfl
  have hempty : Datum.toText (.text "") = .ok "" := rfl
  rw [ofFields, ofFields, Fields.read_congr hsuccess, Fields.read_default hzero,
    Fields.read_congr hvalue, Fields.read_congr hmessage, Fields.read_default hempty]

theorem ofFields_given_eq_ok_iff {success value message : Datum} :
    ofFields (fields ++ [("success", success), ("value", value), ("message", message)]) = .ok o ↔
      success.toFlag = .ok o.success ∧ value.toNumber = .ok o.value ∧
        message.toText = .ok o.message := by
  rw [ofFields_eq_ok_iff,
    Fields.read_of_some (Fields.find?_append_of_some (d := success) (by simp [Fields.find?]) _),
    Fields.read_of_some (Fields.find?_append_of_some (d := value) (by simp [Fields.find?]) _),
    Fields.read_of_some (Fields.find?_append_of_some (d := message) (by simp [Fields.find?]) _)]
  simp only [mapError_eq_ok_iff]

/-- Whatever was given before, an outcome reads back from its own fields. -/
theorem ofFields_append_toFields (fields : Fields) (o : Outcome) :
    ofFields (fields ++ o.toFields) = .ok o :=
  ofFields_given_eq_ok_iff.mpr ⟨rfl, rfl, rfl⟩

theorem succeededWith_eq_ok_iff {value : Datum} :
    succeededWith value = .ok o ↔ ∃ x, value.toNumber = .ok x ∧ o = succeeded x := by
  rw [succeededWith, ← List.nil_append [("success", _), _, _], ofFields_given_eq_ok_iff]
  constructor
  · rintro ⟨hsuccess, hvalue, hmessage⟩
    obtain ⟨success, x, message⟩ := o
    cases hsuccess
    cases hmessage
    exact ⟨x, hvalue, rfl⟩
  · rintro ⟨x, hvalue, rfl⟩
    exact ⟨rfl, hvalue, rfl⟩

theorem failedWith_eq_ok_iff {message : Datum} :
    failedWith message = .ok o ↔ ∃ s, message = .text s ∧ o = failed s := by
  rw [failedWith, ← List.nil_append [("success", _), _, _], ofFields_given_eq_ok_iff,
    Datum.toText_eq_ok_iff]
  constructor
  · rintro ⟨hsuccess, hvalue, hmessage⟩
    obtain ⟨success, x, s⟩ := o
    cases hsuccess
    cases hvalue
    exact ⟨s, hmessage, rfl⟩
  · rintro ⟨s, hmessage, rfl⟩
    exact ⟨rfl, rfl, hmessage⟩

/-- Whatever an expression comes to, the outcome that is made of it passes the reading. -/
theorem reading_ofResult (result : Except Failure Binary64) :
    (match result with
      | .ok value => succeededWith (.number value)
      | .error failure => failedWith (.text failure.message)) = .ok (ofResult result) := by
  cases result with
  | ok value => exact succeededWith_eq_ok_iff.mpr ⟨value, rfl, rfl⟩
  | error failure => exact failedWith_eq_ok_iff.mpr ⟨failure.message, rfl, rfl⟩

end Outcome

/-! ## Reading a request -/

theorem expressionOfFields_eq_ok_iff {s : String} :
    expressionOfFields fields = .ok s ↔ fields.find? "expression" = some (.text s) := by
  rw [expressionOfFields, mapError_eq_ok_iff, Fields.read_eq_ok_iff]
  simp [Datum.toText_eq_ok_iff]

/-- The requests that a run makes of its arguments are all accepted, and hold them as they
are. -/
theorem mapM_expressionOfFields (xs : List String) :
    (xs.mapM fun x ↦ expressionOfFields [("expression", .text x)]) = .ok xs := by
  induction xs with
  | nil => rfl
  | cons x xs ih =>
      have hx : expressionOfFields [("expression", .text x)] = .ok x :=
        expressionOfFields_eq_ok_iff.mpr (by simp [Fields.find?])
      rw [List.mapM_cons, hx, ih]
      rfl

/-! ## Assigning to an outcome -/

namespace Outcome

variable {c : Contents} {value : Datum} {entries : Fields} {e : AssignmentError}

theorem entry_eq_ok_iff : Contents.entry entries name = .ok d ↔ entries.find? name = some d := by
  unfold Contents.entry
  cases entries.find? name <;> simp

theorem entry_eq_error_iff :
    Contents.entry entries name = .error e ↔
      entries.find? name = none ∧ e = .noAttribute name := by
  unfold Contents.entry
  cases entries.find? name <;> simp [eq_comm]

theorem ofTable_eq_ok_iff :
    Contents.ofTable entries = .ok c ↔
      entries.find? "success" = some c.success ∧ entries.find? "value" = some c.value ∧
        entries.find? "message" = some c.message := by
  obtain ⟨success, value, message⟩ := c
  unfold Contents.ofTable
  simp only [bind_eq_ok_iff, entry_eq_ok_iff]
  constructor
  · rintro ⟨_, hsuccess, _, hvalue, _, hmessage, hcontents⟩
    cases hcontents
    exact ⟨hsuccess, hvalue, hmessage⟩
  · rintro ⟨hsuccess, hvalue, hmessage⟩
    exact ⟨_, hsuccess, _, hvalue, _, hmessage, rfl⟩

/-- A table that cannot stand for the fields lacks one of them, and it is this that is
named. -/
theorem noAttribute_of_ofTable (h : Contents.ofTable entries = .error e) :
    ∃ name ∈ fieldNames, entries.find? name = none ∧ e = .noAttribute name := by
  unfold Contents.ofTable at h
  simp only [bind_eq_error_iff, entry_eq_error_iff] at h
  obtain hsuccess | ⟨_, -, hvalue | ⟨_, -, hmessage | ⟨_, -, hcontents⟩⟩⟩ := h
  · exact ⟨"success", by decide, hsuccess⟩
  · exact ⟨"value", by decide, hvalue⟩
  · exact ⟨"message", by decide, hmessage⟩
  · cases hcontents

/-- After an assignment the outcome shows what it has shown before, unless a table has been
put in place of its fields. -/
theorem contents_of_assign (h : o.assign name value = .ok c) :
    c = o.contents ∨
      ∃ entries, name = "__dict__" ∧ value = .table entries ∧ Contents.ofTable entries = .ok c := by
  unfold assign at h
  split at h
  · cases h
  · next entries => exact .inr ⟨entries, rfl, rfl, h⟩
  · cases h
  · cases h
  · cases h
  · split at h
    · exact .inl (Except.ok.inj h).symm
    · cases h

/-- The outcome's own fields may stand in their place, whatever the table held before. -/
theorem assign_toFields (fields : Fields) (o o' : Outcome) :
    o.assign "__dict__" (.table (fields ++ o'.toFields)) = .ok o'.contents := by
  refine ofTable_eq_ok_iff.mpr ⟨?_, ?_, ?_⟩ <;> apply Fields.find?_append_of_some <;>
    simp [toFields, Fields.find?, contents]

/-- Exactly the names that are not private are frozen. -/
theorem assign_eq_frozen_iff {other : String} :
    o.assign name value = .error (.frozen other) ↔
      other = name ∧ name.toList.head? ≠ some '_' := by
  unfold assign
  split
  · exact iff_of_false nofun fun h ↦ h.2 rfl
  · refine iff_of_false (fun h ↦ ?_) fun h ↦ h.2 rfl
    obtain ⟨_, -, -, hfrozen⟩ := noAttribute_of_ofTable h
    cases hfrozen
  · exact iff_of_false nofun fun h ↦ h.2 rfl
  · exact iff_of_false nofun fun h ↦ h.2 rfl
  · exact iff_of_false nofun fun h ↦ h.2 rfl
  · split
    · next hhead => exact iff_of_false nofun fun h ↦ h.2 hhead
    · next hhead => simp [hhead, eq_comm]

/-- No field can be assigned. -/
theorem assign_of_mem_fieldNames (h : name ∈ fieldNames) :
    o.assign name value = .error (.frozen name) := by
  refine assign_eq_frozen_iff.mpr ⟨rfl, ?_⟩
  simp only [fieldNames, List.mem_cons, List.not_mem_nil, or_false] at h
  obtain rfl | rfl | rfl := h <;> decide

end Outcome
end Reckoner
