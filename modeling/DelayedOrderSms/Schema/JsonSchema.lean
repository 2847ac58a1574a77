import DelayedOrderSms.Python.Json
import DelayedOrderSms.Schema.DateTime
import Mathlib.Data.List.Forall2

/-!
# JSON schemas

The keywords of draft-07 for values with a type each: texts, a constant number, lists, and objects
without additional properties.  What a keyword asks of a text is an argument of the validation, so
that one schema can be read in several ways.

* `TextKeyword.holds` — what the keywords ask for.
* `Schema.valid` — validation; `Schema.texts` — the texts of a value, with the keywords that they
  are under.
* `Schema.valid_iff` — a value is valid if its shape is and each of its texts has what its keyword
  asks for.
* `Schema.shape_of_rel`, `Schema.texts_of_rel` — both of values of one shape.
-/

namespace JsonSchema

open Python

/-- What is asked of a text. -/
inductive TextKeyword where
  /-- `minLength` -/
  | minLength (n : ℕ)
  /-- `enum` -/
  | enum (values : List String)
  /-- `const` -/
  | const (value : String)
  /-- `"format": "date-time"` -/
  | dateTime
  /-- `"pattern": "^.+suffix$"` -/
  | lineEnding (suffix : String)
  deriving DecidableEq

/-- `.` does not match it. -/
def isLineTerminator (c : Char) : Bool := c ∈ ['\n', '\r', '\u2028', '\u2029']

/-- A line with `suffix` at its end and something before it. -/
def endsLine (suffix text : List Char) : Bool :=
  let line := text.take (text.length - suffix.length)
  suffix.isSuffixOf text && !line.isEmpty && line.all (!isLineTerminator ·)

/-- The text has what the keyword asks for. -/
def TextKeyword.holds : TextKeyword → String → Bool
  | .minLength n, text => n ≤ text.length
  | .enum values, text => text ∈ values
  | .const value, text => text = value
  | .dateTime, text => isDateTime text
  | .lineEnding suffix, text => endsLine suffix.toList text.toList

/-- A schema. -/
inductive Schema where
  | string (keyword : TextKeyword)
  /-- `"type": "integer", "const": n` -/
  | integer (const : ℤ)
  | array (minItems : ℕ) (items : Schema)
  /-- `"additionalProperties": false` -/
  | object (required : List String) (properties : List (String × Schema))

/-- The number, also with a fraction that is zero. -/
def isNumber (n : ℤ) : Json → Bool
  | .int m => m = n
  | .float (.finite q) => q = n
  | _ => false

/-- The entry satisfies `p` if there is one under the key. -/
def atKey (entries : Dict String Json) (key : String) (p : Json → Bool) : Bool :=
  match entries.get? key with
  | some value => p value
  | none => true

namespace Schema

section

variable (holds : TextKeyword → String → Bool)

mutual

/-- **Validation.** -/
def valid : Schema → Json → Bool
  | .string keyword, .str text => holds keyword text
  | .integer const, value => isNumber const value
  | .array minItems items, .list values => minItems ≤ values.length && values.all (valid items)
  | .object required properties, .dict entries =>
      required.all (fun key => (Dict.get? entries key).isSome)
        && entries.all (fun entry => entry.1 ∈ properties.map Prod.fst)
        && validProperties properties entries
  | _, _ => false

def validProperties : List (String × Schema) → Dict String Json → Bool
  | [], _ => true
  | (key, schema) :: rest, entries =>
      atKey entries key (valid schema) && validProperties rest entries

end

end

mutual

/-- **The texts of a value**, with their keywords. -/
def texts : Schema → Json → List (TextKeyword × String)
  | .string keyword, .str text => [(keyword, text)]
  | .array _ items, .list values => values.flatMap (texts items)
  | .object _ properties, .dict entries => textsOfProperties properties entries
  | _, _ => []

def textsOfProperties : List (String × Schema) → Dict String Json → List (TextKeyword × String)
  | [], _ => []
  | (key, schema) :: rest, entries =>
      ((entries.get? key).elim [] (texts schema)) ++ textsOfProperties rest entries

end

/-- The value has the shape that the schema asks for. -/
def shape : Schema → Json → Bool := valid fun _ _ => true

example : (object ["a"] [("a", array 1 (string .dateTime)), ("b", integer 1)]).shape
    (.dict [("b", .float (.finite 1)), ("a", .list [.str "now"])]) := by decide

section

variable {holds : TextKeyword → String → Bool}

lemma validProperties_eq_true_iff {properties : List (String × Schema)} {entries : Dict String Json} :
    validProperties holds properties entries = true ↔
      ∀ p ∈ properties, ∀ value, entries.get? p.1 = some value → p.2.valid holds value = true := by
  induction properties with
  | nil => simp [validProperties]
  | cons p rest ih =>
      rw [validProperties, Bool.and_eq_true, ih, List.forall_mem_cons, atKey]
      cases Dict.get? entries p.1 with
      | none => simp
      | some value => simp

/-- **A valid object**: it has the required properties, no others than those that are declared, and
each of them is valid. -/
lemma valid_object_iff {required : List String} {properties : List (String × Schema)} {value : Json} :
    (object required properties).valid holds value = true ↔ ∃ entries, value = .dict entries ∧
      (∀ key ∈ required, (Dict.get? entries key).isSome) ∧
        (∀ entry ∈ entries, entry.1 ∈ properties.map Prod.fst) ∧
          ∀ p ∈ properties, ∀ v, Dict.get? entries p.1 = some v → p.2.valid holds v = true := by
  cases value with
  | dict entries =>
      simp only [valid, Bool.and_eq_true, List.all_eq_true, decide_eq_true_eq,
        validProperties_eq_true_iff, Json.dict.injEq, exists_eq_left', and_assoc]
  | _ => simp [valid]

mutual

/-- **Shape and texts.** -/
theorem valid_iff : ∀ (schema : Schema) (value : Json), schema.valid holds value = true ↔
    schema.shape value = true ∧ ∀ p ∈ schema.texts value, holds p.1 p.2 = true
  | .string keyword, value => by
      cases value <;> simp [shape, valid, texts]
  | .integer const, value => by
      cases value <;> simp [shape, valid, texts]
  | .array minItems items, value => by
      cases value with
      | list values =>
          have hitems : ∀ v ∈ values, items.valid holds v = true ↔
              items.shape v = true ∧ ∀ p ∈ items.texts v, holds p.1 p.2 = true :=
            fun v _ => valid_iff items v
          simp only [shape, valid, texts, Bool.and_eq_true, List.all_eq_true, List.mem_flatMap]
          constructor
          · rintro ⟨hlength, hall⟩
            refine ⟨⟨hlength, fun v hv => ((hitems v hv).mp (hall v hv)).1⟩, ?_⟩
            rintro p ⟨v, hv, hp⟩
            exact ((hitems v hv).mp (hall v hv)).2 p hp
          · rintro ⟨⟨hlength, hshape⟩, htexts⟩
            exact ⟨hlength, fun v hv => (hitems v hv).mpr
              ⟨hshape v hv, fun p hp => htexts p ⟨v, hv, hp⟩⟩⟩
      | _ => simp [shape, valid]
  | .object required properties, value => by
      cases value with
      | dict entries =>
          have hproperties := validProperties_iff properties entries
          simp only [shape, valid, texts, Bool.and_eq_true] at hproperties ⊢
          rw [hproperties]
          simp only [and_assoc]
      | _ => simp [shape, valid]

theorem validProperties_iff : ∀ (properties : List (String × Schema)) (entries : Dict String Json),
    validProperties holds properties entries = true ↔
      validProperties (fun _ _ => true) properties entries = true ∧
        ∀ p ∈ textsOfProperties properties entries, holds p.1 p.2 = true
  | [], _ => by simp [validProperties, textsOfProperties]
  | (key, schema) :: rest, entries => by
      have hrest := validProperties_iff rest entries
      have hschema := fun value => valid_iff schema value
      simp only [shape] at hschema
      simp only [validProperties, textsOfProperties, Bool.and_eq_true, List.forall_mem_append, hrest,
        atKey]
      cases entries.get? key with
      | none => simp
      | some value =>
          simp only [hschema value, Option.elim_some]
          tauto

end

end

/-! ## Values of one shape -/

section Rel

variable {R : String → String → Prop}

/-- Entries of one shape have entries under the same keys. -/
lemma get?_cases_of_rel : ∀ {entries entries' : Dict String Json},
    Json.Rel.relEntries R entries entries' → ∀ key : String,
      entries.get? key = none ∧ entries'.get? key = none ∨
        ∃ value value', entries.get? key = some value ∧ entries'.get? key = some value' ∧
          Json.Rel R value value'
  | [], [], _, _ => .inl ⟨rfl, rfl⟩
  | (key₁, value) :: _, (key₂, value') :: _, ⟨hkey, hvalue, hrest⟩, key => by
      obtain rfl : key₁ = key₂ := hkey
      rw [Dict.get?_cons, Dict.get?_cons]
      by_cases h : key₁ = key
      · rw [if_pos h, if_pos h]
        exact .inr ⟨value, value', rfl, rfl, hvalue⟩
      · rw [if_neg h, if_neg h]
        exact get?_cases_of_rel hrest key

lemma map_fst_of_rel : ∀ {entries entries' : Dict String Json},
    Json.Rel.relEntries R entries entries' → entries.map Prod.fst = entries'.map Prod.fst
  | [], [], _ => rfl
  | _ :: _, _ :: _, ⟨hkey, _, hrest⟩ => congrArg₂ List.cons hkey (map_fst_of_rel hrest)

lemma forall₂_of_relItems : ∀ {items items' : List Json}, Json.Rel.relItems R items items' →
    List.Forall₂ (Json.Rel R) items items'
  | [], [], _ => .nil
  | _ :: _, _ :: _, ⟨hitem, hrest⟩ => .cons hitem (forall₂_of_relItems hrest)

mutual

/-- **Values of one shape** are of a shape that a schema asks for together. -/
theorem shape_of_rel : ∀ (schema : Schema) {value value' : Json}, Json.Rel R value value' →
    schema.shape value = schema.shape value'
  | .string keyword, value, value', h => by
      cases value <;> cases value' <;> first | exact h.elim | rfl
  | .integer const, value, value', h => by
      cases value <;> cases value' <;> first | exact h.elim | cases h; rfl | rfl
  | .array minItems items, value, value', h => by
      cases value <;> cases value' <;> try first | exact h.elim | rfl
      have hitems := forall₂_of_relItems h
      have hall : ∀ values values', List.Forall₂ (Json.Rel R) values values' →
          values.all items.shape = values'.all items.shape := by
        intro values values' hrel
        induction hrel with
        | nil => rfl
        | cons hvalue _ ih => rw [List.all_cons, List.all_cons, ih, shape_of_rel items hvalue]
      simp only [shape, valid, hitems.length_eq]
      exact congrArg _ (hall _ _ hitems)
  | .object required properties, value, value', h => by
      cases value <;> cases value' <;> try first | exact h.elim | rfl
      rename_i entries entries'
      have hrequired : (fun key => (Dict.get? entries key).isSome)
          = fun key => (Dict.get? entries' key).isSome := by
        funext key
        rcases get?_cases_of_rel h key with ⟨hnone, hnone'⟩ | ⟨_, _, hsome, hsome', _⟩
        · rw [hnone, hnone']
        · rw [hsome, hsome']
          rfl
      have hkeys : entries.all (fun entry => entry.1 ∈ properties.map Prod.fst)
          = entries'.all fun entry => entry.1 ∈ properties.map Prod.fst := by
        have hmap := congrArg (List.all · fun key => decide (key ∈ properties.map Prod.fst))
          (map_fst_of_rel h)
        simpa only [List.all_map, Function.comp_def] using hmap
      simp only [shape, valid, hrequired, hkeys]
      exact congrArg _ (validProperties_of_rel properties h)

theorem validProperties_of_rel : ∀ (properties : List (String × Schema))
    {entries entries' : Dict String Json}, Json.Rel.relEntries R entries entries' →
      validProperties (fun _ _ => true) properties entries
        = validProperties (fun _ _ => true) properties entries'
  | [], _, _, _ => rfl
  | (key, schema) :: rest, entries, entries', h => by
      simp only [validProperties, atKey]
      rw [validProperties_of_rel rest h]
      rcases get?_cases_of_rel h key with ⟨hnone, hnone'⟩ | ⟨_, _, hsome, hsome', hvalue⟩
      · rw [hnone, hnone']
      · rw [hsome, hsome']
        exact congrArg (· && _) (shape_of_rel schema hvalue)

end

/-- The same keyword, and texts in the relation. -/
abbrev RelTexts (R : String → String → Prop) (p p' : TextKeyword × String) : Prop :=
  p.1 = p'.1 ∧ R p.2 p'.2

mutual

/-- They have texts in the relation, under the same keywords. -/
theorem texts_of_rel : ∀ (schema : Schema) {value value' : Json}, Json.Rel R value value' →
    List.Forall₂ (RelTexts R) (schema.texts value) (schema.texts value')
  | .string keyword, value, value', h => by
      cases value <;> cases value' <;> try first | exact h.elim | exact .nil
      exact .cons ⟨rfl, h⟩ .nil
  | .integer const, value, value', h => by
      cases value <;> cases value' <;> first | exact h.elim | exact .nil
  | .array minItems items, value, value', h => by
      cases value <;> cases value' <;> try first | exact h.elim | exact .nil
      have hall : ∀ values values', List.Forall₂ (Json.Rel R) values values' →
          List.Forall₂ (RelTexts R) (values.flatMap items.texts) (values'.flatMap items.texts) := by
        intro values values' hrel
        induction hrel with
        | nil => exact .nil
        | cons hvalue _ ih => exact List.rel_append (texts_of_rel items hvalue) ih
      exact hall _ _ (forall₂_of_relItems h)
  | .object required properties, value, value', h => by
      cases value <;> cases value' <;> try first | exact h.elim | exact .nil
      exact textsOfProperties_of_rel properties h

theorem textsOfProperties_of_rel : ∀ (properties : List (String × Schema))
    {entries entries' : Dict String Json}, Json.Rel.relEntries R entries entries' →
      List.Forall₂ (RelTexts R) (textsOfProperties properties entries)
        (textsOfProperties properties entries')
  | [], _, _, _ => .nil
  | (key, schema) :: rest, entries, entries', h => by
      have hrest := textsOfProperties_of_rel rest h
      simp only [textsOfProperties]
      rcases get?_cases_of_rel h key with ⟨hnone, hnone'⟩ | ⟨_, _, hsome, hsome', hvalue⟩
      · rw [hnone, hnone']
        exact hrest
      · rw [hsome, hsome']
        exact List.rel_append (texts_of_rel schema hvalue) hrest

end

end Rel

end Schema

end JsonSchema
