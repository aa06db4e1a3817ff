import Mathlib
import PackRpc.Proofs.Descriptor.Printing
/-!
# Types that name a record

A context is a type with a place in it for another one. A text mentions a name if it is a type with the name
at such a place, alone or with nothing between its brackets. What it means follows from what the name means:
a record that has been defined, unless the name is that of a built-in type. A declaration may have such a
name nevertheless, and then nothing means the record.
-/
namespace PackRpc

namespace Descriptor

/-- A type with a place for a type in it. -/
inductive Context where
  | here
  | nullable (inner : Context)
  | list (element : Context)
  | mapKey (inner : Context) (value : Descriptor)
  | mapValue (key : Descriptor) (inner : Context)
  | tupleItem (before : List Descriptor) (inner : Context) (after : List Descriptor)

/-- The type with another one at the place. -/
def Context.fill (d : Descriptor) : Context → Descriptor
  | here => d
  | nullable inner => .nullable (inner.fill d)
  | list element => .list (element.fill d)
  | mapKey inner value => .map (inner.fill d) value
  | mapValue key inner => .map key (inner.fill d)
  | tupleItem before inner after => .tuple (before ++ inner.fill d :: after)

/-- The tokens are a type whose brackets nest at most so many levels deep, with a name at the place of the
context. -/
inductive Mentions (r : Registry) (leaf : String) : Nat → List Token → Context → Prop
  | bare {levels} : Mentions r leaf levels [.name leaf] .here
  | applied {levels} : Mentions r leaf (levels + 1) (.name leaf :: bracketed []) .here
  | nullable {levels name tokens c} : name = "nullable" ∨ name = "optional" →
      Mentions r leaf levels tokens c →
      Mentions r leaf (levels + 1) (.name name :: bracketed [tokens]) (.nullable c)
  | list {levels tokens c} : Mentions r leaf levels tokens c →
      Mentions r leaf (levels + 1) (.name "list" :: bracketed [tokens]) (.list c)
  | mapKey {levels tokens others c value} : Mentions r leaf levels tokens c → Derives r levels others value →
      Mentions r leaf (levels + 1) (.name "map" :: bracketed [tokens, others]) (.mapKey c value)
  | mapValue {levels tokens others c key} : Derives r levels others key → Mentions r leaf levels tokens c →
      Mentions r leaf (levels + 1) (.name "map" :: bracketed [others, tokens]) (.mapValue key c)
  | tupleItem {levels tokens c} (before after : List (List Token × Descriptor)) :
      (∀ p ∈ before, Derives r levels p.1 p.2) → Mentions r leaf levels tokens c →
      (∀ p ∈ after, Derives r levels p.1 p.2) →
      Mentions r leaf (levels + 1)
        (.name "tuple" :: bracketed (before.map Prod.fst ++ tokens :: after.map Prod.fst))
        (.tupleItem (before.map Prod.snd) c (after.map Prod.snd))

/-- The text is a type with a name at the place of the context. -/
def MentionedIn (r : Registry) (leaf text : String) (c : Context) : Prop :=
  ∃ tokens, Written tokens text.toList ∧ Mentions r leaf defaultMaxDepth tokens c

variable {r : Registry} {name leaf text : String} {d : Descriptor} {c : Context} {levels : Nat}
  {tokens : List Token}

/-- A name means the same alone and with nothing between its brackets. -/
def Names (r : Registry) (name : String) (d : Descriptor) : Prop :=
  ∀ params : Option (List Descriptor), params.getD [] = [] → Denotes r name params d

theorem Mentions.derives (h : Mentions r leaf levels tokens c) (names : Names r leaf d) :
    Derives r levels tokens (c.fill d) := by
  induction h with
  | bare => exact .bare (names none rfl)
  | applied => exact .applied [] (List.forall_mem_nil _) (names (some []) rfl)
  | nullable spelled _ ih =>
      exact .applied [(_, _)] (List.forall_mem_singleton.mpr ih) (.nullable spelled)
  | list _ ih => exact .applied [(_, _)] (List.forall_mem_singleton.mpr ih) .list
  | mapKey _ others ih =>
      exact .applied [(_, _), (_, _)] (List.forall_mem_cons.mpr ⟨ih, List.forall_mem_singleton.mpr others⟩) .map
  | mapValue others _ ih =>
      exact .applied [(_, _), (_, _)] (List.forall_mem_cons.mpr ⟨others, List.forall_mem_singleton.mpr ih⟩) .map
  | @tupleItem levels tokens c before after first _ last ih =>
      have each : ∀ p ∈ before ++ (tokens, c.fill d) :: after, Derives r levels p.1 p.2 :=
        List.forall_mem_append.mpr ⟨first, List.forall_mem_cons.mpr ⟨ih, last⟩⟩
      have derived := Derives.applied _ each (.tuple (r := r))
      simpa only [List.map_append, List.map_cons, Context.fill] using derived

theorem MentionedIn.parse (h : MentionedIn r leaf text c) (names : Names r leaf d) :
    r.parse text = .ok (c.fill d) := by
  obtain ⟨tokens, written, mentions⟩ := h
  exact (parse_eq_ok r text _).mpr ⟨tokens, written, mentions.derives names⟩

theorem mentionedIn_self (named : IsName name) : MentionedIn r name name .here :=
  ⟨[.name name], (prints_name named).written, .bare⟩

theorem names_of_plain (h : plain? name = some d) : Names r name d := fun _ empty => .plain h empty

theorem names_record {t : RecordType} (other : ¬ IsBuiltIn name) (found : r.get? name = some t) :
    Names r name t.descriptor := fun _ empty => .record other found empty

theorem plain?_ne_record (h : plain? name = some d) (t : RecordType) : d ≠ t.descriptor := by
  rintro rfl
  unfold plain? at h
  split at h
  all_goals cases h

theorem resolve_generic_bare (h : name ∈ generics) (lookup : String → Option Descriptor)
    (start cs : List Char) : ∃ e, resolve lookup start name none cs = .error e := by
  simp only [generics, List.mem_cons, List.not_mem_nil, or_false] at h
  rcases h with rfl | rfl | rfl | rfl | rfl
  all_goals exact ⟨_, rfl⟩

/-- A type that takes parameters is refused without them. -/
theorem parse_generic (h : name ∈ generics) (named : IsName name) : ∃ e, r.parse name = .error e := by
  cases read : r.parse name with
  | error e => exact ⟨e, rfl⟩
  | ok d =>
      rw [Registry.parse, run_eq_ok, whole_eq_ok] at read
      obtain ⟨rest, read, -⟩ := read
      obtain ⟨back, first, others⟩ := name_written (prints_name named).written fun _ h => by cases h
      have bare : eat? '<' back = none := eat?_eq_none (m := .opening) others (by simp)
      obtain ⟨inner, eq⟩ := typeAt_eq r.lookup defaultMaxDepth
      obtain ⟨e, refused⟩ := resolve_generic_bare h r.lookup (skipBlanks name.toList) back
      simp only [type, eq, typeWith, first, bare, refused, Except.map] at read
      cases read

end Descriptor

namespace Registry
open Descriptor (Context IsBuiltIn IsName MentionedIn Names generics plain?)

variable {r₀ r : Registry} {text : String} {t : RecordType}

/-- What has been defined has a name, and is what the registry has under it. -/
theorem define_eq_ok (h : r₀.define text = .ok (t, r)) : IsName t.name ∧ r.get? t.name = some t := by
  rw [define] at h
  split at h
  case h_2 => cases h
  case h_1 t' declared =>
    obtain ⟨rfl, rfl⟩ := Prod.mk.inj (Except.ok.inj h)
    refine ⟨?_, OrderedMap.get?_insert_self _ _ _⟩
    rw [Descriptor.run_eq_ok, Descriptor.whole_eq_ok] at declared
    obtain ⟨rest, declared, -⟩ := declared
    rw [Descriptor.declaration] at declared
    split at declared
    case h_1 => cases declared
    case h_2 start name front named =>
      split at declared
      case h_1 => cases declared
      case h_2 =>
        split at declared
        case h_1 => cases declared
        case h_2 =>
          cases declared
          exact (Descriptor.written_of_name named).1

/-- Once a record is defined its name means the record wherever a type mentions it, unless the name is that
of a built-in type: one without parameters it goes on to mean, and one with parameters is no type alone. -/
theorem define_named (defined : r₀.define text = .ok (t, r)) :
    (r.parse t.name = .ok t.descriptor ↔ ¬ IsBuiltIn t.name) ∧
      (¬ IsBuiltIn t.name → ∀ type c, MentionedIn r t.name type c → r.parse type = .ok (c.fill t.descriptor)) ∧
      (∀ d, plain? t.name = some d →
        d ≠ t.descriptor ∧ ∀ type c, MentionedIn r t.name type c → r.parse type = .ok (c.fill d)) ∧
      (t.name ∈ generics → ∃ e, r.parse t.name = .error e) := by
  obtain ⟨named, found⟩ := define_eq_ok defined
  have self : MentionedIn r t.name t.name .here := Descriptor.mentionedIn_self named
  have plain : ∀ d, plain? t.name = some d → Names r t.name d := fun d h => Descriptor.names_of_plain h
  have generic : t.name ∈ generics → ∃ e, r.parse t.name = .error e := fun h =>
    Descriptor.parse_generic h named
  refine ⟨⟨?_, ?_⟩, ?_, ?_, generic⟩
  · rintro read (h | h)
    · obtain ⟨e, refused⟩ := generic h
      rw [read] at refused
      cases refused
    · obtain ⟨d, h⟩ := Option.isSome_iff_exists.mp h
      have other : r.parse t.name = .ok d := self.parse (plain d h)
      rw [read] at other
      exact Descriptor.plain?_ne_record h t (Except.ok.inj other).symm
  · intro other
    exact self.parse (Descriptor.names_record other found)
  · intro other type c mentioned
    exact mentioned.parse (Descriptor.names_record other found)
  · intro d h
    exact ⟨Descriptor.plain?_ne_record h t, fun type c mentioned => mentioned.parse (plain d h)⟩

/-- A record that is defined anew, as the elements of a list among the values of a map. -/
theorem define_named_again :
    let before : Registry := Registry.new.insert "entry" ⟨"entry", []⟩
    let entry : RecordType := ⟨"entry", [("key", .string), ("value", .int true .w32)]⟩
    let r : Registry := before.insert "entry" entry
    let c := Context.mapValue .string (.list .here)
    before.define "entry\x7bkey: string, value: int\x7d" = .ok (entry, r) ∧ ¬ IsBuiltIn entry.name ∧
      MentionedIn r entry.name "map<string, list<entry>>" c ∧
      r.parse "map<string, list<entry>>" = .ok (.map .string (.list entry.descriptor)) := by
  intro before entry r c
  have defined : before.define "entry\x7bkey: string, value: int\x7d" = .ok (entry, r) := by cbv
  have other : ¬ IsBuiltIn entry.name := by decide +kernel
  have mentioned : MentionedIn r entry.name "map<string, list<entry>>" c := by
    have current : Descriptor.IsCurrent r entry := ⟨by decide +kernel, other, by decide +kernel⟩
    have known : Descriptor.Known r (c.fill entry.descriptor) := List.forall_mem_singleton.mpr current
    exact ⟨_, known.prints.written, .mapValue (.bare (.plain rfl rfl)) (.list .bare)⟩
  exact ⟨defined, other, mentioned, (define_named defined).2.1 other _ c mentioned⟩

/-- A record that is defined under the name of a built-in type is not what the name means. -/
theorem defined_and_hidden :
    let hidden : RecordType := ⟨"string", [("a", .int true .w32)]⟩
    ∃ r : Registry, Registry.new.define "string\x7ba: int32\x7d" = .ok (hidden, r) ∧
      r.parse hidden.name = .ok .string ∧ r.parse hidden.name ≠ .ok hidden.descriptor ∧
      r.parse "list<string>" = .ok (.list .string) := by
  intro hidden
  exact ⟨Registry.new.insert "string" hidden, by cbv, by decide +kernel, by decide +kernel, by decide +kernel⟩

end Registry

end PackRpc
