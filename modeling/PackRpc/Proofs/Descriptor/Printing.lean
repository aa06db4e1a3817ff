import PackRpc.Descriptor.Text
import PackRpc.Proofs.Descriptor.Grammar

namespace PackRpc.Descriptor

/-! ## Words and parts -/

def word : Descriptor → String
  | .tuple _ => "tuple"
  | .nullable _ => "nullable"
  | .list _ => "list"
  | .map _ _ => "map"
  | d => d.text

/-- What the text of a descriptor has between brackets. -/
def parts : Descriptor → Option (List Descriptor)
  | .tuple items => some items
  | .nullable inner => some [inner]
  | .list element => some [element]
  | .map key value => some [key, value]
  | _ => none

mutual

/-- How deep the brackets of the text nest. -/
def nesting : Descriptor → Nat
  | .tuple items => itemsNesting items + 1
  | .nullable inner => nesting inner + 1
  | .list element => nesting element + 1
  | .map key value => max (nesting key) (nesting value) + 1
  | _ => 0

def itemsNesting : List Descriptor → Nat
  | [] => 0
  | item :: items => max (nesting item) (itemsNesting items)

end

mutual

def records : Descriptor → List RecordType
  | .record name fields => [⟨name, fields⟩]
  | .tuple items => itemsRecords items
  | .nullable inner => records inner
  | .list element => records element
  | .map key value => records key ++ records value
  | _ => []

def itemsRecords : List Descriptor → List RecordType
  | [] => []
  | item :: items => records item ++ itemsRecords items

end

mutual

def tokens : Descriptor → List Token
  | .tuple items => .name "tuple" :: bracketed (itemsTokens items)
  | .nullable inner => .name "nullable" :: bracketed [tokens inner]
  | .list element => .name "list" :: bracketed [tokens element]
  | .map key value => .name "map" :: bracketed [tokens key, tokens value]
  | d => [.name d.text]

def itemsTokens : List Descriptor → List (List Token)
  | [] => []
  | item :: items => tokens item :: itemsTokens items

end

variable {r : Registry} {d : Descriptor} {ds : List Descriptor} {levels : Nat} {tokens after : List Token}
  {cs rest : List Char}

theorem itemsNesting_le : itemsNesting ds ≤ levels ↔ ∀ d ∈ ds, d.nesting ≤ levels := by
  induction ds with
  | nil => simp [itemsNesting]
  | cons d ds ih => rw [itemsNesting, max_le_iff, ih, List.forall_mem_cons]

theorem itemsRecords_eq (ds : List Descriptor) : itemsRecords ds = ds.flatMap records := by
  induction ds with
  | nil => rfl
  | cons d ds ih => rw [itemsRecords, ih, List.flatMap_cons]

theorem itemsTokens_eq (ds : List Descriptor) : itemsTokens ds = ds.map Descriptor.tokens := by
  induction ds with
  | nil => rfl
  | cons d ds ih => rw [itemsTokens, ih, List.map_cons]

theorem texts_eq (ds : List Descriptor) : texts ds = ds.map text := by
  induction ds with
  | nil => rfl
  | cons d ds ih => rw [texts, ih, List.map_cons]

/-- Induction over a descriptor after its parts. -/
@[elab_as_elim]
theorem induction_parts {motive : Descriptor → Prop} (bare : ∀ d, d.parts = none → motive d)
    (applied : ∀ d ds, d.parts = some ds → (∀ e ∈ ds, motive e) → motive d) (d : Descriptor) : motive d := by
  induction d using Descriptor.induction with
  | tuple items ih => exact applied _ _ rfl ih
  | nullable inner ih => exact applied _ _ rfl (List.forall_mem_singleton.mpr ih)
  | list element ih => exact applied _ _ rfl (List.forall_mem_singleton.mpr ih)
  | map key value ihk ihv =>
      exact applied _ _ rfl (List.forall_mem_cons.mpr ⟨ihk, List.forall_mem_singleton.mpr ihv⟩)
  | bool | int | float | string | raw | record | object | unit => exact bare _ rfl

theorem text_bare (h : d.parts = none) : d.text = d.word := by
  cases d <;> first | rfl | cases h

theorem text_applied (h : d.parts = some ds) :
    d.text = d.word ++ "<" ++ ", ".intercalate (ds.map text) ++ ">" := by
  cases d <;> cases h
  case tuple => rw [text, texts_eq]; rfl
  case map =>
      rw [← String.toList_inj]
      simp [text, word]
  all_goals rfl

theorem tokens_bare (h : d.parts = none) : d.tokens = [.name d.word] := by
  cases d <;> first | rfl | cases h

theorem tokens_applied (h : d.parts = some ds) :
    d.tokens = .name d.word :: bracketed (ds.map Descriptor.tokens) := by
  cases d <;> cases h
  case tuple => rw [Descriptor.tokens, itemsTokens_eq]; rfl
  all_goals rfl

theorem nesting_bare (h : d.parts = none) : d.nesting = 0 := by
  cases d <;> first | rfl | cases h

theorem nesting_applied (h : d.parts = some ds) : d.nesting = itemsNesting ds + 1 := by
  cases d <;> cases h
  case tuple => rfl
  all_goals simp [nesting, itemsNesting]

theorem records_applied (h : d.parts = some ds) : d.records = ds.flatMap records := by
  cases d <;> cases h
  case tuple => exact itemsRecords_eq _
  all_goals simp [records]

/-! ## Texts and tokens -/

/-- The text is the tokens, whatever is written after them. -/
def Prints (tokens : List Token) (text : String) : Prop :=
  ∀ ⦃after rest⦄, Written after rest → Written (tokens ++ after) (text.toList ++ rest)

theorem Prints.append {more : List Token} {text others : String} (first : Prints tokens text)
    (second : Prints more others) : Prints (tokens ++ more) (text ++ others) := by
  intro after rest written
  rw [List.append_assoc, String.toList_append, List.append_assoc]
  exact first (second written)

theorem Prints.written {text : String} (h : Prints tokens text) : Written tokens text.toList := by
  have written := h (Written.nil (show Blank [] from nofun))
  rwa [List.append_nil, List.append_nil] at written

theorem prints_name {name : String} (h : IsName name) : Prints [.name name] name :=
  fun _ _ written => Written.name (show Blank [] from nofun) h written

theorem prints_mark (m : Mark) : Prints [.mark m] (.singleton m.char) := by
  intro after rest written
  rw [String.toList_singleton]
  exact Written.mark m (show Blank [] from nofun) written

theorem prints_spaced (m : Mark) : Prints [.mark m] (.singleton m.char ++ " ") := by
  intro after rest written
  have blank : Blank [' '] := List.forall_mem_singleton.mpr (by decide)
  rw [String.toList_append, String.toList_singleton]
  exact Written.mark m (show Blank [] from nofun) (written.blanks_append blank)

theorem prints_separated {α : Type} {items : List α} {tokens : α → List Token} {text : α → String}
    (h : ∀ a ∈ items, Prints (tokens a) (text a)) :
    Prints (separated (items.map tokens)) (", ".intercalate (items.map text)) := by
  induction items with
  | nil => exact fun _ _ written => written
  | cons a items ih =>
      obtain ⟨first, more⟩ := List.forall_mem_cons.mp h
      cases items with
      | nil =>
          rw [List.map_singleton, List.map_singleton, String.intercalate_singleton, separated, followed,
            List.append_nil]
          exact first
      | cons b items =>
          have split : separated ((a :: b :: items).map tokens) =
              tokens a ++ [.mark .comma] ++ separated ((b :: items).map tokens) := by
            simp [separated, followed]
          have joined : ", ".intercalate ((a :: b :: items).map text) =
              text a ++ ", " ++ ", ".intercalate ((b :: items).map text) := String.intercalate_cons_cons
          have comma : Prints [.mark .comma] ", " := prints_spaced .comma
          rw [split, joined]
          exact (first.append comma).append (ih more)

/-! ## Descriptors whose records are known -/

/-- A record type is what a registry has under its name, and the name is no other type's. -/
structure IsCurrent (r : Registry) (t : RecordType) : Prop where
  named : IsName t.name
  other : ¬ IsBuiltIn t.name
  found : r.get? t.name = some t

/-- The record types that the text of the descriptor names are those of the registry. -/
def Known (r : Registry) (d : Descriptor) : Prop := ∀ t ∈ d.records, IsCurrent r t

theorem isName_of_isBuiltIn {name : String} (h : IsBuiltIn name) : IsName name := by
  rcases h with generic | plain
  · simp only [generics, List.mem_cons, List.not_mem_nil, or_false] at generic
    rcases generic with rfl | rfl | rfl | rfl | rfl <;> decide +kernel
  · unfold plain? at plain
    split at plain
    all_goals first | decide +kernel | cases plain

theorem plain?_word (h : d.parts = none) (other : ∀ name fields, d ≠ .record name fields) :
    plain? d.word = some d := by
  cases d with
  | int signed width => cases signed <;> cases width <;> decide +kernel
  | bool | float | string | raw | object | unit => rfl
  | record name fields => exact absurd rfl (other name fields)
  | tuple | nullable | list | map => cases h

theorem word_generic (h : d.parts = some ds) : d.word ∈ generics := by
  cases d <;> cases h <;> simp [word, generics]

theorem Known.parts (known : Known r d) (h : d.parts = some ds) : ∀ e ∈ ds, Known r e := by
  intro e he t ht
  refine known t ?_
  rw [records_applied h]
  exact List.mem_flatMap.mpr ⟨e, he, ht⟩

theorem Known.current {name : String} {fields : List (String × Descriptor)} (known : Known r (.record name fields)) :
    IsCurrent r ⟨name, fields⟩ :=
  known _ List.mem_cons_self

theorem Known.isName_word (known : Known r d) : IsName d.word := by
  cases d with
  | record => exact known.current.named
  | bool | int | float | string | raw | object | unit =>
      exact isName_of_isBuiltIn (.inr (Option.isSome_of_eq_some (plain?_word rfl nofun)))
  | tuple | nullable | list | map => exact isName_of_isBuiltIn (.inl (word_generic rfl))

theorem Known.denotes (known : Known r d) : Denotes r d.word d.parts d := by
  cases d with
  | record => exact .record known.current.other known.current.found rfl
  | bool | int | float | string | raw | object | unit => exact .plain (plain?_word rfl nofun) rfl
  | tuple => exact .tuple
  | nullable => exact .nullable (.inl rfl)
  | list => exact .list
  | map => exact .map

theorem Known.prints (known : Known r d) : Prints d.tokens d.text := by
  induction d using induction_parts with
  | bare d h =>
      rw [tokens_bare h, text_bare h]
      exact prints_name known.isName_word
  | applied d ds h ih =>
      have word := prints_name known.isName_word
      have inside := prints_separated fun e he => ih e he (known.parts h e he)
      have opening : Prints [.mark .opening] "<" := prints_mark .opening
      have closing : Prints [.mark .closing] ">" := prints_mark .closing
      have split : d.tokens = [.name d.word] ++ [.mark .opening] ++ separated (ds.map Descriptor.tokens) ++
          [.mark .closing] := by
        rw [tokens_applied h]
        simp [bracketed]
      rw [split, text_applied h]
      exact ((word.append opening).append inside).append closing

def printed (ds : List Descriptor) : List (List Token × Descriptor) := ds.map fun d => (d.tokens, d)

theorem printed_tokens (ds : List Descriptor) : (printed ds).map Prod.fst = ds.map Descriptor.tokens :=
  List.map_map

theorem printed_descriptors (ds : List Descriptor) : (printed ds).map Prod.snd = ds := by
  rw [printed, List.map_map]
  exact List.map_id ds

/-- The tokens of a descriptor are a type that means the descriptor. -/
theorem Known.derives (known : Known r d) (shallow : d.nesting ≤ levels) : Derives r levels d.tokens d := by
  induction d using induction_parts generalizing levels with
  | bare d h =>
      have denotes := known.denotes
      rw [h] at denotes
      rw [tokens_bare h]
      exact .bare denotes
  | applied d ds h ih =>
      rw [nesting_applied h] at shallow
      obtain ⟨levels, rfl⟩ := Nat.exists_eq_add_one_of_ne_zero (Nat.ne_zero_of_lt shallow)
      have inner := itemsNesting_le.mp (Nat.le_of_succ_le_succ shallow)
      have derived : ∀ p ∈ printed ds, Derives r levels p.1 p.2 :=
        List.forall_mem_map.mpr fun e he => ih e he (known.parts h e he) (inner e he)
      have denotes := known.denotes
      rw [h, ← printed_descriptors ds] at denotes
      rw [tokens_applied h, ← printed_tokens]
      exact .applied _ derived denotes

/-! ## Brackets that nest too deep -/

/-- The parser refuses the tokens for their depth, whatever follows them. -/
structure Overflows (parser : Parser Descriptor) (tokens : List Token) : Prop where
  named : StartsWithName tokens
  refuses : ∀ {after : List Token} {cs : List Char}, Ended after → Written (tokens ++ after) cs →
    ∃ position, parser cs = .error (.tooDeep position defaultMaxDepth)

variable {parser : Parser Descriptor} {items : List (List Token × Descriptor)}

theorem followed_append (lists more : List (List Token)) :
    followed (lists ++ more) = followed lists ++ followed more := by
  induction lists with
  | nil => rfl
  | cons tokens lists ih => rw [List.cons_append, followed, ih, followed, List.cons_append, List.append_assoc]

theorem restOf_overflows (h : ∀ p ∈ items, Accepts parser p.1 p.2) (deep : Overflows parser tokens)
    (others : List (List Token)) {fuel : Nat} (enough : items.length < fuel) (done : List Descriptor)
    (written : Written (followed (items.map Prod.fst ++ tokens :: others) ++ .mark .closing :: after) cs) :
    ∃ position, restOf parser '>' fuel done cs = .error (.tooDeep position defaultMaxDepth) := by
  obtain ⟨left, rfl⟩ := Nat.exists_eq_add_of_lt enough
  rw [followed_append, List.append_assoc] at written
  obtain ⟨back, reads, written⟩ := restOf_passes h (ended_followed _ ended_closing) (left + 1) done written
  have going : eat? '>' back = none := eat?_eq_none (m := .closing) written nofun
  rw [followed, List.cons_append, List.append_assoc] at written
  obtain ⟨inside, (comma : eat? ',' back = some inside), written⟩ := written_mark_iff_eat?.mp written
  obtain ⟨position, refused⟩ := deep.refuses (ended_followed _ ended_closing) written
  refine ⟨position, ?_⟩
  rw [Nat.add_assoc, reads, restOf, going, expect_eq_ok.mpr comma]
  simp only [refused]

theorem parameters_overflows (h : ∀ p ∈ items, Accepts parser p.1 p.2) (deep : Overflows parser tokens)
    (others : List (List Token))
    (written : Written (separated (items.map Prod.fst ++ tokens :: others) ++ .mark .closing :: after) cs) :
    ∃ position, parameters parser cs = .error (.tooDeep position defaultMaxDepth) := by
  cases items with
  | nil =>
      have going := deep.named.goes_on written
      rw [List.map_nil, List.nil_append, separated, List.append_assoc] at written
      obtain ⟨position, refused⟩ := deep.refuses (ended_followed _ ended_closing) written
      exact ⟨position, by rw [parameters, going, refused]⟩
  | cons p items =>
      obtain ⟨first, more⟩ := List.forall_mem_cons.mp h
      rw [List.map_cons, List.cons_append] at written
      have going := first.named.goes_on written
      have enough : items.length < cs.length := by
        have := length_le_of_separated written
        simp only [List.length_cons, List.length_append, List.length_map] at this
        omega
      rw [separated, List.append_assoc] at written
      obtain ⟨front, read, written⟩ := first.reads (ended_followed _ ended_closing) written
      obtain ⟨position, refused⟩ := restOf_overflows more deep others enough [p.2] written
      exact ⟨position, by rw [parameters, going]; simp only [read, refused]⟩

theorem typeWith_none_overflows (lookup : String → Option Descriptor) (name : String)
    (lists : List (List Token)) : Overflows (typeWith lookup none) (.name name :: bracketed lists) where
  named := ⟨name, _, rfl⟩
  refuses {after cs} _ written := by
    rw [List.cons_append, bracketed_append] at written
    obtain ⟨front, read, written⟩ := name_written written nofun
    obtain ⟨back, (opening : eat? '<' front = some back), -⟩ := written_mark_iff_eat?.mp written
    exact ⟨skipBlanks cs, by simp only [typeWith, read, opening]⟩

theorem typeWith_overflows (lookup : String → Option Descriptor) (name : String)
    (h : ∀ p ∈ items, Accepts parser p.1 p.2) (deep : Overflows parser tokens) (others : List (List Token)) :
    Overflows (typeWith lookup (some parser))
      (.name name :: bracketed (items.map Prod.fst ++ tokens :: others)) where
  named := ⟨name, _, rfl⟩
  refuses {after cs} _ written := by
    rw [List.cons_append, bracketed_append] at written
    obtain ⟨front, read, written⟩ := name_written written nofun
    obtain ⟨back, (opening : eat? '<' front = some back), written⟩ := written_mark_iff_eat?.mp written
    obtain ⟨position, refused⟩ := parameters_overflows h deep others written
    exact ⟨position, by simp only [typeWith, read, opening, refused]⟩

theorem exists_first_deep (h : levels < itemsNesting ds) :
    ∃ front d back, ds = front ++ d :: back ∧ (∀ e ∈ front, e.nesting ≤ levels) ∧ levels < d.nesting := by
  have some_deep : ¬ ∀ e ∈ ds, e.nesting ≤ levels := fun all => absurd h (not_lt.mpr (itemsNesting_le.mpr all))
  have found : (ds.find? fun e => levels < e.nesting).isSome := by
    simpa [List.find?_isSome] using some_deep
  obtain ⟨d, found⟩ := Option.isSome_iff_exists.mp found
  obtain ⟨deep, front, back, split, shallow⟩ := List.find?_eq_some_iff_append.mp found
  exact ⟨front, d, back, split, by simpa using shallow, by simpa using deep⟩

theorem Known.overflows (known : Known r d) (deep : levels < d.nesting) :
    Overflows (typeAt r.lookup levels) d.tokens := by
  induction d using induction_parts generalizing levels with
  | bare d h =>
      rw [nesting_bare h] at deep
      exact absurd deep (Nat.not_lt_zero levels)
  | applied d ds h ih =>
      rw [nesting_applied h] at deep
      rw [tokens_applied h]
      cases levels with
      | zero => exact typeWith_none_overflows _ _ _
      | succ levels =>
          -- The parts before the first one that nests too deep are read, and that one is refused.
          obtain ⟨front, e, back, rfl, shallow, deep⟩ := exists_first_deep (Nat.lt_of_succ_lt_succ deep)
          have known := known.parts h
          have accepted : ∀ p ∈ printed front, Accepts (typeAt r.lookup levels) p.1 p.2 :=
            List.forall_mem_map.mpr fun f hf =>
              ((known f (List.mem_append_left _ hf)).derives (shallow f hf)).accepts
          have he : e ∈ front ++ e :: back := List.mem_append_right _ List.mem_cons_self
          rw [List.map_append, List.map_cons, ← printed_tokens]
          exact typeWith_overflows _ _ accepted (ih e he (known e he) deep) _

/-! ## Declarations -/

def fieldTokens (field : String × Descriptor) : List Token :=
  .name field.1 :: .mark .colon :: field.2.tokens

def declarationTokens (t : RecordType) : List Token :=
  .name t.name :: .mark .leftBrace :: (separated (t.fields.map fieldTokens) ++ [.mark .rightBrace])

/-- A name and a type that parses back. -/
structure IsField (r : Registry) (field : String × Descriptor) : Prop where
  named : IsName field.1
  known : Known r field.2
  shallow : field.2.nesting ≤ defaultMaxDepth

variable {fields : List (String × Descriptor)}

theorem prints_field {field : String × Descriptor} (h : IsField r field) :
    Prints (fieldTokens field) (field.1 ++ ": " ++ field.2.text) := by
  have colon : Prints [.mark .colon] ": " := prints_spaced .colon
  exact ((prints_name h.named).append colon).append h.known.prints

theorem prints_declaration {t : RecordType} (named : IsName t.name) (h : ∀ f ∈ t.fields, IsField r f) :
    Prints (declarationTokens t) t.declaration := by
  have left : Prints [.mark .leftBrace] "\x7b" := prints_mark .leftBrace
  have right : Prints [.mark .rightBrace] "\x7d" := prints_mark .rightBrace
  have inside := prints_separated fun f hf => prints_field (h f hf)
  have split : declarationTokens t = [.name t.name] ++ [.mark .leftBrace] ++
      separated (t.fields.map fieldTokens) ++ [.mark .rightBrace] := by
    simp [declarationTokens]
  rw [split, RecordType.declaration]
  exact (((prints_name named).append left).append inside).append right

/-- A field with a new name is read. After a comma there may be more, and after the brace there are none. -/
theorem fieldsOnto_field (record : String) {f : String × Descriptor} (h : IsField r f)
    {done : List (String × Descriptor)} (fresh : f.1 ∉ done.map Prod.fst) (ended : Ended after) (fuel : Nat)
    (written : Written (fieldTokens f ++ after) cs) :
    ∃ rest, Written after rest ∧
      (∀ next, eat? ',' rest = some next → fieldsOnto r.lookup record (fuel + 1) done cs =
        fieldsOnto r.lookup record fuel (f :: done) next) ∧
      ∀ last, eat? ',' rest = none → eat? '}' rest = some last →
        fieldsOnto r.lookup record (fuel + 1) done cs = .ok ((f :: done).reverse, last) := by
  have going : eat? '}' cs = none := eat?_eq_none (m := .rightBrace) written nofun
  have unused : done.any (·.1 == f.1) = false :=
    List.any_eq_false.mpr fun g hg same => fresh (List.mem_map.mpr ⟨g, hg, beq_iff_eq.mp same⟩)
  obtain ⟨back, named, written⟩ := name_written written nofun
  obtain ⟨inside, (colon : eat? ':' back = some inside), written⟩ := written_mark_iff_eat?.mp written
  obtain ⟨rest, read, written⟩ := (h.known.derives h.shallow).accepts.reads ended written
  refine ⟨rest, written, fun next comma => ?_, fun last comma closing => ?_⟩
  · rw [fieldsOnto, going, named]
    simp only [unused, Bool.false_eq_true, if_false, expect_eq_ok.mpr colon, type, read, comma]
  · rw [fieldsOnto, going, named]
    simp only [unused, Bool.false_eq_true, if_false, expect_eq_ok.mpr colon, type, read, comma,
      expect_eq_ok.mpr closing]

/-- All fields of a declaration are read, if their names are new and differ. -/
theorem fieldsOnto_reads (record : String) (h : ∀ f ∈ fields, IsField r f) (done : List (String × Descriptor))
    (distinct : ((done.reverse ++ fields).map Prod.fst).Nodup) {fuel : Nat} (enough : fields.length < fuel)
    (written : Written (separated (fields.map fieldTokens) ++ .mark .rightBrace :: after) cs) :
    ∃ rest, fieldsOnto r.lookup record fuel done cs = .ok (done.reverse ++ fields, rest) ∧
      Written after rest := by
  induction fields generalizing fuel done cs with
  | nil =>
      obtain ⟨fuel, rfl⟩ := Nat.exists_eq_add_one_of_ne_zero (Nat.ne_zero_of_lt enough)
      obtain ⟨rest, (closing : eat? '}' cs = some rest), others⟩ := written_mark_iff_eat?.mp written
      exact ⟨rest, by rw [fieldsOnto, closing, List.append_nil], others⟩
  | cons f fields ih =>
      obtain ⟨fuel, rfl⟩ := Nat.exists_eq_add_one_of_ne_zero (Nat.ne_zero_of_lt enough)
      obtain ⟨first, more⟩ := List.forall_mem_cons.mp h
      have distinct : (((f :: done).reverse ++ fields).map Prod.fst).Nodup := by
        rwa [List.reverse_cons, List.append_assoc, List.singleton_append]
      have fresh : f.1 ∉ done.map Prod.fst := by
        rw [List.map_append, List.map_reverse, List.map_cons, List.reverse_cons] at distinct
        have apart := (List.nodup_append.mp (List.nodup_append.mp distinct).1).2.2
        exact fun used => apart _ (List.mem_reverse.mpr used) _ List.mem_cons_self rfl
      rw [List.map_cons, separated, List.append_assoc] at written
      have ended : Ended (followed (fields.map fieldTokens) ++ .mark .rightBrace :: after) :=
        ended_followed _ (ended_mark (by decide))
      obtain ⟨front, written, step, stop⟩ := fieldsOnto_field record first fresh ended fuel written
      cases fields with
      | nil =>
          have last : eat? ',' front = none := eat?_eq_none (m := .comma) written (by simp [followed])
          obtain ⟨rest, (closing : eat? '}' front = some rest), others⟩ := written_mark_iff_eat?.mp written
          refine ⟨rest, ?_, others⟩
          rw [stop rest last closing, List.reverse_cons]
      | cons g fields =>
          obtain ⟨inner, (comma : eat? ',' front = some inner), written⟩ := written_mark_iff_eat?.mp written
          obtain ⟨rest, reads, others⟩ := ih more (f :: done) distinct (Nat.lt_of_succ_lt_succ enough) written
          refine ⟨rest, ?_, others⟩
          rw [step inner comma, reads, List.reverse_cons, List.append_assoc, List.singleton_append]

theorem declaration_reads {t : RecordType} (distinct : t.fieldNames.Nodup) (h : ∀ f ∈ t.fields, IsField r f)
    (written : Written (declarationTokens t) cs) : whole (declaration r.lookup) cs = .ok t := by
  obtain ⟨back, name, written⟩ := name_written written nofun
  obtain ⟨inside, (left : eat? '\x7b' back = some inside), written⟩ := written_mark_iff_eat?.mp written
  have enough := length_le_of_separated written
  rw [List.length_map] at enough
  obtain ⟨rest, reads, others⟩ := fieldsOnto_reads t.name h [] distinct (Nat.lt_succ_of_le enough) written
  refine whole_eq_ok.mpr ⟨rest, ?_, others⟩
  simp only [declaration, name, expect_eq_ok.mpr left, reads, List.reverse_nil, List.nil_append]

/-! ## What the registry reads back -/

theorem Known.parse (known : Known r d) (shallow : d.nesting ≤ defaultMaxDepth) : r.parse d.text = .ok d :=
  (parse_eq_ok r d.text d).mpr ⟨d.tokens, known.prints.written, known.derives shallow⟩

theorem Known.parse_deep (known : Known r d) (deep : defaultMaxDepth < d.nesting) :
    ∃ offset, r.parse d.text = .error (.tooDeep offset defaultMaxDepth) := by
  have written := known.prints.written
  rw [← List.append_nil d.tokens] at written
  obtain ⟨position, refused⟩ := (known.overflows deep).refuses ended_nil written
  exact ⟨_, by rw [Registry.parse, run, whole, type, refused]; rfl⟩

theorem define_declaration {t : RecordType} (named : IsName t.name) (distinct : t.fieldNames.Nodup)
    (h : ∀ f ∈ t.fields, IsField r f) : r.define t.declaration = .ok (t, r.insert t.name t) := by
  have written := (prints_declaration named h).written
  rw [Registry.define, run_eq_ok.mpr (declaration_reads distinct h written)]

/-- The text of a descriptor is read as the descriptor, or refused for its depth, and the declaration of a
record type as the record type. -/
theorem parse_text (r : Registry) :
    (∀ d, Known r d →
      (d.nesting ≤ 64 → r.parse d.text = .ok d) ∧
      (64 < d.nesting → ∃ offset, r.parse d.text = .error (.tooDeep offset 64))) ∧
    ∀ t : RecordType, IsName t.name → t.fieldNames.Nodup → (∀ f ∈ t.fields, IsField r f) →
      r.define t.declaration = .ok (t, r.insert t.name t) :=
  ⟨fun _ known => ⟨known.parse, known.parse_deep⟩, fun _ => define_declaration⟩

/-- A record in a tuple beside a tuple of nothing, one bracket too many, and a declaration with both. -/
theorem parse_text_entries :
    let entry : RecordType := ⟨"entry", [("key", .string)]⟩
    let r : Registry := Registry.new.insert "entry" entry
    let d := Descriptor.map .string (.tuple [entry.descriptor, .tuple []])
    let page : RecordType := ⟨"page", [("rows", d), ("next", .nullable entry.descriptor)]⟩
    r.parse "map<string, tuple<entry, tuple<>>>" = .ok d ∧
      (∃ offset, r.parse (Nat.iterate Descriptor.list 62 d).text = .error (.tooDeep offset 64)) ∧
      r.define "page\x7brows: map<string, tuple<entry, tuple<>>>, next: nullable<entry>\x7d" =
        .ok (page, r.insert "page" page) := by
  intro entry r d page
  obtain ⟨reads, defines⟩ := parse_text r
  have current : IsCurrent r entry := ⟨by decide +kernel, by decide +kernel, by decide +kernel⟩
  have known {e : Descriptor} (h : e.records = [entry]) : Known r e := by
    intro t ht
    rw [h, List.mem_singleton] at ht
    exact ht ▸ current
  have fields : ∀ f ∈ page.fields, IsField r f :=
    List.forall_mem_cons.mpr ⟨⟨by decide +kernel, known rfl, by decide +kernel⟩,
      List.forall_mem_singleton.mpr ⟨by decide +kernel, known rfl, by decide +kernel⟩⟩
  exact ⟨(reads d (known rfl)).1 (by decide +kernel), (reads _ (known rfl)).2 (by decide +kernel),
    defines page (by decide +kernel) (by decide +kernel) fields⟩

end PackRpc.Descriptor
