import LiteralGrammar.Diagnostic.Format
import LiteralGrammar.Proofs.Json.Reading

/-!
Diagnostics as JSON: one line, from which every field is read back, and the same line for two
diagnostics only if they differ in facts that are absent in one and empty in the other.
-/
namespace LiteralGrammar

theorem DiagnosticCode.number_injective {c e : DiagnosticCode} (same : c.number = e.number) :
    c = e := by
  cases c <;> cases e <;> first | rfl | exact absurd same (by decide)

namespace Diagnostic

/-- The members of the object, by what the diagnostic says. -/
inductive Says (d : Diagnostic) : Text → Json.Atom → Prop where
  | code : Says d "code" (.text d.code.name)
  | codeValue : Says d "code_value" (.number d.code.number)
  | message : Says d "message" (.text d.message)
  | severity : Says d "severity" (.text d.severity)
  | path {t : Text} (known : d.path = some t) (nonempty : t ≠ []) : Says d "path" (.text t)
  | receivedType {t : Text} (known : d.receivedType = some t) (nonempty : t ≠ []) :
    Says d "received_type" (.text t)
  | hint {t : Text} (known : d.hint = some t) (nonempty : t ≠ []) : Says d "hint" (.text t)

/-- Agreement up to absent facts, which count as empty ones. -/
structure Agrees (d e : Diagnostic) : Prop where
  code : d.code = e.code
  message : d.message = e.message
  severity : d.severity = e.severity
  path : d.path.getD [] = e.path.getD []
  receivedType : d.receivedType.getD [] = e.receivedType.getD []
  hint : d.hint.getD [] = e.hint.getD []

theorem stated_eq (fact : Option Text) :
    stated fact = if fact.getD [] = [] then none else some (fact.getD []) := by
  cases fact with
  | none => rfl
  | some t => by_cases empty : t = [] <;> simp [stated, Option.filter, empty]

theorem stated_eq_some_iff {fact : Option Text} {t : Text} :
    stated fact = some t ↔ fact = some t ∧ t ≠ [] := by
  simp [stated, Option.filter_eq_some_iff]

theorem stated_eq_iff {a b : Option Text} : stated a = stated b ↔ a.getD [] = b.getD [] := by
  have given (fact : Option Text) : (stated fact).getD [] = fact.getD [] := by
    rw [stated_eq]
    split
    case isTrue empty => exact empty.symm
    case isFalse => rfl
  constructor
  · intro same
    rw [← given a, ← given b, same]
  · intro same
    rw [stated_eq, stated_eq, same]

theorem mem_toJson {d : Diagnostic} {name : Text} {value : Json.Atom} :
    (name, value) ∈ d.toJson ↔ d.Says name value := by
  constructor
  · intro member
    simp only [toJson, List.mem_append, List.mem_cons, List.not_mem_nil, or_false, Prod.mk.injEq,
      Option.mem_toList, Option.map_eq_some_iff, stated_eq_some_iff] at member
    rcases member with (((⟨rfl, rfl⟩ | ⟨rfl, rfl⟩ | ⟨rfl, rfl⟩ | ⟨rfl, rfl⟩) |
      ⟨t, ⟨known, nonempty⟩, rfl, rfl⟩) | ⟨t, ⟨known, nonempty⟩, rfl, rfl⟩) |
      ⟨t, ⟨known, nonempty⟩, rfl, rfl⟩
    · exact .code
    · exact .codeValue
    · exact .message
    · exact .severity
    · exact .path known nonempty
    · exact .receivedType known nonempty
    · exact .hint known nonempty
  · intro said
    cases said
    case path known nonempty | receivedType known nonempty | hint known nonempty =>
      simp [toJson, stated_eq_some_iff, known, nonempty]
    all_goals simp [toJson]

theorem nodup_toJson (d : Diagnostic) : (d.toJson.map Prod.fst).Nodup := by
  cases path : stated d.path <;> cases received : stated d.receivedType <;>
    cases hint : stated d.hint <;> simp [toJson, path, received, hint]

theorem toJson_eq_iff {d e : Diagnostic} : d.toJson = e.toJson ↔ Agrees d e := by
  constructor
  · intro same
    have members (name : Text) (value : Json.Atom) :
        (name, value) ∈ d.toJson ↔ (name, value) ∈ e.toJson := by rw [same]
    exact
      { code := DiagnosticCode.number_injective (by
          simpa [toJson] using members "code_value" (.number d.code.number))
        message := by simpa [toJson] using members "message" (.text d.message)
        severity := by simpa [toJson] using members "severity" (.text d.severity)
        path := stated_eq_iff.mp <| Option.ext fun t => by
          simpa [toJson] using members "path" (.text t)
        receivedType := stated_eq_iff.mp <| Option.ext fun t => by
          simpa [toJson] using members "received_type" (.text t)
        hint := stated_eq_iff.mp <| Option.ext fun t => by
          simpa [toJson] using members "hint" (.text t) }
  · intro ⟨code, message, severity, path, received, hint⟩
    simp only [toJson, code, message, severity, stated_eq_iff.mpr path, stated_eq_iff.mpr received,
      stated_eq_iff.mpr hint]

/-- Neither quotes nor backslashes nor control characters in a field end it early, and no two
diagnostics that differ in more than absent against empty facts are printed alike. -/
theorem json_read_back (d : Diagnostic) (colour : Bool) :
    '\n' ∉ d.format .json colour ∧
      (∃ members, Json.Object.read? (d.format .json colour) = some members ∧
        (members.map Prod.fst).Nodup ∧
        ∀ name value, (name, value) ∈ members ↔ d.Says name value) ∧
      ∀ (e : Diagnostic) (other : Bool),
        d.format .json colour = e.format .json other ↔ Agrees d e := by
  refine ⟨Json.Object.clean_write _, ⟨d.toJson, Json.Object.read?_write _, nodup_toJson d,
    fun _ _ => mem_toJson⟩, fun e other => ?_⟩
  change d.toJson.write = e.toJson.write ↔ Agrees d e
  rw [Json.Object.write_inj, toJson_eq_iff]

end Diagnostic

end LiteralGrammar
