import DelayedOrderSms.Python.Int
import Mathlib.Data.List.Infix
import Mathlib.Data.Rat.Floor

/-!
# What `json.load` returns

Dictionaries and JSON values, with what the language says of any of them: truth, `int(..)`,
`in`, assignment of an item, and the traversal of a tree that rewrites its strings.

A dictionary is the list of its entries in insertion order.  `json.load` never repeats a key, and
no operation here adds a second entry for one.

* `Dict.get?_set`, `Dict.get?_foldl_set` — what is read after assignments.
* `Json.rel_mapStrings`, `Json.rel_of_mapStrings` — a traversal keeps all but the strings.
* `Json.at?_of_rel` — so a string has one in its place.
-/

namespace Python

section

variable {κ β : Type} [DecidableEq κ]

/-- A `dict`, in insertion order. -/
abbrev Dict (κ β : Type) := List (κ × β)

namespace Dict

/-- `d.get(key)`; `none` is a missing key. -/
def get? (d : Dict κ β) (key : κ) : Option β := (d.find? fun entry => entry.1 = key).map Prod.snd

/-- `d.get(key, default)`. -/
def getD (d : Dict κ β) (key : κ) (default : β) : β := (d.get? key).getD default

/-- `d[key]`. -/
def getItem (d : Dict κ β) (key : κ) : Except Exception β :=
  match d.get? key with
  | some value => .ok value
  | none => .error { type := .keyError }

/-- `d[key] = value`: in the place of the key, or at the end. -/
def set (d : Dict κ β) (key : κ) (value : β) : Dict κ β :=
  match d with
  | [] => [(key, value)]
  | entry :: rest => if entry.1 = key then (key, value) :: rest else entry :: set rest key value

@[simp] lemma get?_nil (key : κ) : get? ([] : Dict κ β) key = none := rfl

lemma get?_cons (entry : κ × β) (d : Dict κ β) (key : κ) :
    get? (entry :: d) key = if entry.1 = key then some entry.2 else get? d key := by
  by_cases h : entry.1 = key <;> simp [get?, h]

lemma mem_of_get? {d : Dict κ β} {key : κ} {value : β} (h : get? d key = some value) :
    (key, value) ∈ d := by
  obtain ⟨⟨key', value'⟩, hfind, rfl⟩ := Option.map_eq_some_iff.mp h
  obtain rfl : key' = key := by simpa using List.find?_some hfind
  exact List.mem_of_find?_eq_some hfind

/-- **Reading after an assignment**: the new value at its key, the old ones elsewhere. -/
theorem get?_set (d : Dict κ β) (key key' : κ) (value : β) :
    get? (set d key value) key' = if key = key' then some value else get? d key' := by
  induction d with
  | nil => simp [set, get?_cons]
  | cons entry rest ih =>
      rw [set]
      by_cases h : entry.1 = key
      · subst h
        by_cases h' : entry.1 = key'
        · simp [get?_cons, h']
        · simp [get?_cons, h']
      · rw [if_neg h, get?_cons, ih, get?_cons]
        by_cases h' : entry.1 = key'
        · subst h'
          simp [Ne.symm h]
        · simp [h']

/-- Assigning the value that is there changes nothing. -/
lemma set_eq_self {d : Dict κ β} {key : κ} {value : β} (h : get? d key = some value) :
    set d key value = d := by
  induction d with
  | nil => simp at h
  | cons entry rest ih =>
      rw [get?_cons] at h
      rw [set]
      split_ifs at h ⊢ with hkey
      · rw [← hkey, ← Option.some.inj h]
      · rw [ih h]

/-- Assignments in a row, of values that depend on their keys. -/
lemma get?_foldl_set {α : Type} (key : α → κ) (value : α → β) (v : κ → β) {l : List α}
    (h : ∀ a ∈ l, value a = v (key a)) (d : Dict κ β) (k : κ) :
    get? (l.foldl (fun d a => set d (key a) (value a)) d) k
      = if k ∈ l.map key then some (v k) else get? d k := by
  induction l generalizing d with
  | nil => simp
  | cons a rest ih =>
      have ha := h a (by simp)
      rw [List.foldl_cons, ih (fun a' ha' => h a' (by simp [ha'])), get?_set, ha]
      by_cases hrest : k ∈ rest.map key
      · have hmem : k ∈ (a :: rest).map key := List.mem_cons_of_mem _ hrest
        rw [if_pos hrest, if_pos hmem]
      · by_cases hk : key a = k
        · simp [hrest, hk]
        · simp [hrest, hk, Ne.symm hk]

lemma getItem_eq_ok_iff {d : Dict κ β} {key : κ} {value : β} :
    d.getItem key = .ok value ↔ d.get? key = some value := by
  rw [getItem]
  cases d.get? key with
  | none => simp
  | some value' => simp

end Dict

end

/-- A `float`: its exact value, an infinity, or not a number. -/
inductive FloatValue where
  | finite (q : ℚ)
  | infinity (negative : Bool)
  | nan
  deriving DecidableEq, Repr

/-- A JSON value as `json.load` returns it. -/
inductive Json where
  | null
  | bool (b : Bool)
  | int (n : ℤ)
  | float (x : FloatValue)
  | str (s : String)
  | list (items : List Json)
  | dict (entries : List (String × Json))
  deriving Repr

/-- Rounding towards zero. -/
def truncate (q : ℚ) : ℤ := if 0 ≤ q then ⌊q⌋ else ⌈q⌉

/-- Truncation of what is not negative. -/
lemma truncate_of_nonneg {q : ℚ} (h : 0 ≤ q) : truncate q = ⌊q⌋ := if_pos h

namespace Json

/-- `bool(value)`. -/
def truthy : Json → Bool
  | .null => false
  | .bool b => b
  | .int n => n ≠ 0
  | .float (.finite q) => q ≠ 0
  | .float _ => true
  | .str s => s ≠ ""
  | .list items => !items.isEmpty
  | .dict entries => !entries.isEmpty

/-- `int(value)`. -/
def toInt : Json → Except Exception ℤ
  | .bool b => .ok (if b then 1 else 0)
  | .int n => .ok n
  | .float (.finite q) => .ok (truncate q)
  | .float (.infinity _) => .error { type := .overflowError }
  | .float .nan => .error { type := .valueError }
  | .str s => intOfStr s.toList
  | .null | .list _ | .dict _ => .error { type := .typeError }

/-- Whether the value is the string `s`. -/
def isStr (s : String) : Json → Bool
  | .str t => t = s
  | _ => false

/-- `s in value`: a key of a dictionary, an item of a list, a part of a string. -/
def contains (value : Json) (s : String) : Except Exception Bool :=
  match value with
  | .dict entries => .ok (Dict.get? entries s).isSome
  | .list items => .ok (items.any (isStr s))
  | .str t => .ok (decide (s.toList <:+: t.toList))
  | .null | .bool _ | .int _ | .float _ => .error { type := .typeError }

/-- `value[key] = item` with a string for a key. -/
def setItem (value : Json) (key : String) (item : Json) : Except Exception Json :=
  match value with
  | .dict entries => .ok (.dict (Dict.set entries key item))
  | _ => .error { type := .typeError }

/-- The tree with `f` applied to each string that is not a key. -/
def mapStrings {m : Type → Type} [Monad m] (f : String → m String) : Json → m Json
  | .null => pure .null
  | .bool b => pure (.bool b)
  | .int n => pure (.int n)
  | .float x => pure (.float x)
  | .str s => do return .str (← f s)
  | .list items => do return .list (← mapItems items)
  | .dict entries => do return .dict (← mapEntries entries)
where
  mapItems : List Json → m (List Json)
    | [] => pure []
    | item :: rest => do return (← mapStrings f item) :: (← mapItems rest)
  mapEntries : List (String × Json) → m (List (String × Json))
    | [] => pure []
    | (key, value) :: rest => do return (key, ← mapStrings f value) :: (← mapEntries rest)

example : mapStrings (fun s => some (s ++ "!")) (.dict [("a", .list [.str "b", .int 1])])
    = some (.dict [("a", .list [.str "b!", .int 1])]) := rfl

/-- A step into a tree: to the value of a key, or to an item. -/
inductive Step where
  | key (name : String)
  | item (index : ℕ)
  deriving DecidableEq, Repr

/-- What the tree has at a position. -/
def at? : Json → List Step → Option Json
  | value, [] => some value
  | .dict entries, .key name :: rest => (Dict.get? entries name).bind fun value => at? value rest
  | .list items, .item index :: rest => items[index]?.bind fun value => at? value rest
  | _, _ :: _ => none

/-! ## Trees of one shape -/

/-- The trees have the same shape, with the same keys and the same leaves, except that a string of
the one is in the relation `R` to the string in its place of the other. -/
def Rel (R : String → String → Prop) : Json → Json → Prop
  | .null, .null => True
  | .bool b, .bool b' => b = b'
  | .int n, .int n' => n = n'
  | .float x, .float x' => x = x'
  | .str s, .str t => R s t
  | .list items, .list items' => relItems items items'
  | .dict entries, .dict entries' => relEntries entries entries'
  | _, _ => False
where
  relItems : List Json → List Json → Prop
    | [], [] => True
    | item :: rest, item' :: rest' => Rel R item item' ∧ relItems rest rest'
    | _, _ => False
  relEntries : List (String × Json) → List (String × Json) → Prop
    | [], [] => True
    | (key, value) :: rest, (key', value') :: rest' =>
        key = key' ∧ Rel R value value' ∧ relEntries rest rest'
    | _, _ => False

section

variable {R : String → String → Prop} {f : String → Except Exception String}

/-- What dictionaries of one shape have under a key. -/
lemma get?_of_relEntries {entries entries' : List (String × Json)}
    (h : Rel.relEntries R entries entries') {key : String} {value : Json}
    (hvalue : Dict.get? entries key = some value) :
    ∃ value', Dict.get? entries' key = some value' ∧ Rel R value value' := by
  induction entries generalizing entries' with
  | nil => simp at hvalue
  | cons entry rest ih =>
      obtain ⟨key₁, value₁⟩ := entry
      cases entries' with
      | nil => exact h.elim
      | cons entry' rest' =>
          obtain ⟨key₂, value₂⟩ := entry'
          obtain ⟨rfl, hhead, htail⟩ := h
          rw [Dict.get?_cons] at hvalue ⊢
          by_cases hkey : key₁ = key
          · rw [if_pos hkey] at hvalue ⊢
            cases hvalue
            exact ⟨value₂, rfl, hhead⟩
          · rw [if_neg hkey] at hvalue ⊢
            exact ih htail hvalue

/-- What lists of one shape have at an index. -/
lemma getElem?_of_relItems {items items' : List Json} (h : Rel.relItems R items items')
    {index : ℕ} {value : Json} (hvalue : items[index]? = some value) :
    ∃ value', items'[index]? = some value' ∧ Rel R value value' := by
  induction items generalizing items' index with
  | nil => simp at hvalue
  | cons item rest ih =>
      cases items' with
      | nil => exact h.elim
      | cons item' rest' =>
          obtain ⟨hhead, htail⟩ := h
          cases index with
          | zero =>
              cases hvalue
              exact ⟨item', rfl, hhead⟩
          | succ index =>
              rw [List.getElem?_cons_succ] at hvalue ⊢
              exact ih htail hvalue

/-- **What trees of one shape have in one place.** -/
theorem at?_of_rel {position : List Step} {tree tree' value : Json} (h : Rel R tree tree')
    (hvalue : tree.at? position = some value) :
    ∃ value', tree'.at? position = some value' ∧ Rel R value value' := by
  induction position generalizing tree tree' with
  | nil =>
      cases tree <;> cases hvalue <;> exact ⟨tree', by cases tree' <;> rfl, h⟩
  | cons step rest ih =>
      cases tree with
      | dict entries =>
          cases step with
          | item index => cases hvalue
          | key name =>
              obtain ⟨child, hchild, hvalue⟩ := Option.bind_eq_some_iff.mp hvalue
              cases tree' with
              | dict entries' =>
                  obtain ⟨child', hchild', hrel⟩ := get?_of_relEntries h hchild
                  obtain ⟨value', hvalue', hend⟩ := ih hrel hvalue
                  exact ⟨value', Option.bind_eq_some_iff.mpr ⟨child', hchild', hvalue'⟩, hend⟩
              | _ => exact h.elim
      | list items =>
          cases step with
          | key name => cases hvalue
          | item index =>
              obtain ⟨child, hchild, hvalue⟩ := Option.bind_eq_some_iff.mp hvalue
              cases tree' with
              | list items' =>
                  obtain ⟨child', hchild', hrel⟩ := getElem?_of_relItems h hchild
                  obtain ⟨value', hvalue', hend⟩ := ih hrel hvalue
                  exact ⟨value', Option.bind_eq_some_iff.mpr ⟨child', hchild', hvalue'⟩, hend⟩
              | _ => exact h.elim
      | _ => cases step <;> cases hvalue

mutual

lemma rel_of_mapStrings (h : ∀ s t, f s = .ok t → R s t) :
    ∀ {j j' : Json}, mapStrings f j = .ok j' → Rel R j j'
  | .null, _, hj => by cases hj; trivial
  | .bool b, _, hj => by cases hj; rfl
  | .int n, _, hj => by cases hj; rfl
  | .float x, _, hj => by cases hj; rfl
  | .str s, _, hj => by
      obtain ⟨t, ht, hj⟩ := bind_eq_ok_iff.mp hj
      cases hj
      exact h s t ht
  | .list items, _, hj => by
      obtain ⟨items', hitems, hj⟩ := bind_eq_ok_iff.mp hj
      cases hj
      exact relItems_of_mapItems h hitems
  | .dict entries, _, hj => by
      obtain ⟨entries', hentries, hj⟩ := bind_eq_ok_iff.mp hj
      cases hj
      exact relEntries_of_mapEntries h hentries

lemma relItems_of_mapItems (h : ∀ s t, f s = .ok t → R s t) :
    ∀ {items items' : List Json}, mapStrings.mapItems f items = .ok items' →
      Rel.relItems R items items'
  | [], _, hj => by cases hj; trivial
  | item :: rest, _, hj => by
      obtain ⟨item', hitem, hj⟩ := bind_eq_ok_iff.mp hj
      obtain ⟨rest', hrest, hj⟩ := bind_eq_ok_iff.mp hj
      cases hj
      exact ⟨rel_of_mapStrings h hitem, relItems_of_mapItems h hrest⟩

lemma relEntries_of_mapEntries (h : ∀ s t, f s = .ok t → R s t) :
    ∀ {entries entries' : List (String × Json)}, mapStrings.mapEntries f entries = .ok entries' →
      Rel.relEntries R entries entries'
  | [], _, hj => by cases hj; trivial
  | (key, value) :: rest, _, hj => by
      obtain ⟨value', hvalue, hj⟩ := bind_eq_ok_iff.mp hj
      obtain ⟨rest', hrest, hj⟩ := bind_eq_ok_iff.mp hj
      cases hj
      exact ⟨rfl, rel_of_mapStrings h hvalue, relEntries_of_mapEntries h hrest⟩

end

variable {g : String → String}

mutual

lemma rel_mapStrings (h : ∀ s, R s (g s)) :
    ∀ j : Json, Rel R j (Id.run (mapStrings (fun s => pure (g s)) j))
  | .null => trivial
  | .bool _ => rfl
  | .int _ => rfl
  | .float _ => rfl
  | .str s => h s
  | .list items => relItems_mapItems h items
  | .dict entries => relEntries_mapEntries h entries

lemma relItems_mapItems (h : ∀ s, R s (g s)) : ∀ items : List Json,
    Rel.relItems R items (Id.run (mapStrings.mapItems (fun s => pure (g s)) items))
  | [] => trivial
  | item :: rest => ⟨rel_mapStrings h item, relItems_mapItems h rest⟩

lemma relEntries_mapEntries (h : ∀ s, R s (g s)) : ∀ entries : List (String × Json),
    Rel.relEntries R entries (Id.run (mapStrings.mapEntries (fun s => pure (g s)) entries))
  | [] => trivial
  | (_, value) :: rest => ⟨rfl, rel_mapStrings h value, relEntries_mapEntries h rest⟩

end

end

section

variable {m : Type → Type} [Monad m] (g : String → String) (f : String → m String)

mutual

/-- One traversal after another is one traversal. -/
lemma mapStrings_mapStrings : ∀ j : Json,
    mapStrings f (Id.run (mapStrings (fun s => pure (g s)) j)) = mapStrings (fun s => f (g s)) j
  | .null => rfl
  | .bool _ => rfl
  | .int _ => rfl
  | .float _ => rfl
  | .str _ => rfl
  | .list items => by
      simp only [mapStrings]
      rw [← mapItems_mapItems items]
      rfl
  | .dict entries => by
      simp only [mapStrings]
      rw [← mapEntries_mapEntries entries]
      rfl

lemma mapItems_mapItems : ∀ items : List Json,
    mapStrings.mapItems f (Id.run (mapStrings.mapItems (fun s => pure (g s)) items))
      = mapStrings.mapItems (fun s => f (g s)) items
  | [] => rfl
  | item :: rest => by
      simp only [mapStrings.mapItems]
      rw [← mapStrings_mapStrings item, ← mapItems_mapItems rest]
      rfl

lemma mapEntries_mapEntries : ∀ entries : List (String × Json),
    mapStrings.mapEntries f (Id.run (mapStrings.mapEntries (fun s => pure (g s)) entries))
      = mapStrings.mapEntries (fun s => f (g s)) entries
  | [] => rfl
  | (key, value) :: rest => by
      simp only [mapStrings.mapEntries]
      rw [← mapStrings_mapStrings value, ← mapEntries_mapEntries rest]
      rfl

end

end

end Json

end Python
