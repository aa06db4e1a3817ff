import PackRpc.Proofs.Descriptor.RoundTrip
import PackRpc.Proofs.Descriptor.Tokens

namespace PackRpc.Descriptor

/-! ## What names mean -/

def generics : List String := ["nullable", "optional", "list", "map", "tuple"]

def IsBuiltIn (name : String) : Prop := name ∈ generics ∨ (plain? name).isSome

instance (name : String) : Decidable (IsBuiltIn name) :=
  inferInstanceAs (Decidable (name ∈ generics ∨ (plain? name).isSome))

/-- What a name means without brackets, or with these parameters between brackets. -/
inductive Denotes (r : Registry) : String → Option (List Descriptor) → Descriptor → Prop
  | nullable {name inner} : name = "nullable" ∨ name = "optional" →
      Denotes r name (some [inner]) (.nullable inner)
  | list {element} : Denotes r "list" (some [element]) (.list element)
  | map {key value} : Denotes r "map" (some [key, value]) (.map key value)
  | tuple {items} : Denotes r "tuple" (some items) (.tuple items)
  | plain {name params d} : plain? name = some d → params.getD [] = [] → Denotes r name params d
  | record {name params t} : ¬ IsBuiltIn name → r.get? name = some t → params.getD [] = [] →
      Denotes r name params t.descriptor

variable {r : Registry} {name : String} {params : Option (List Descriptor)} {d : Descriptor}
  {start cs rest : List Char} {after tokens : List Token}

theorem plain?_generic (h : name ∈ generics) : plain? name = none := by
  simp only [generics, List.mem_cons, List.not_mem_nil, or_false] at h
  rcases h with rfl | rfl | rfl | rfl | rfl <;> rfl

theorem resolve_simple {lookup : String → Option Descriptor} (h : name ∉ generics) :
    resolve lookup start name params cs =
      match (plain? name).or (lookup name) with
      | none => .error (.unknownType start name)
      | some d =>
        if (params.map List.length).getD 0 = 0 then .ok d
        else .error (.wrongParameterCount start name 0 ((params.map List.length).getD 0)) := by
  unfold resolve
  split
  case h_6 => rfl
  all_goals simp [generics] at h

theorem no_params_iff : (params.map List.length).getD 0 = 0 ↔ params.getD [] = [] := by
  cases params <;> simp

theorem denotes_of_resolve (h : resolve r.lookup start name params cs = .ok d) : Denotes r name params d := by
  by_cases generic : name ∈ generics
  case pos =>
    unfold resolve at h
    split at h
    case h_6 => simp_all [generics]
    all_goals
      split at h
      all_goals cases h
    · exact .nullable (.inl rfl)
    · exact .nullable (.inr rfl)
    · exact .list
    · exact .map
    · exact .tuple
  case neg =>
    rw [resolve_simple generic] at h
    split at h
    case h_1 => cases h
    case h_2 found =>
      split at h
      case isFalse => cases h
      case isTrue empty =>
        cases h
        rw [no_params_iff] at empty
        cases plain : plain? name with
        | some d =>
            rw [plain, Option.some_or] at found
            cases found
            exact .plain plain empty
        | none =>
            rw [plain, Option.none_or, Registry.lookup, Option.map_eq_some_iff] at found
            obtain ⟨t, found, rfl⟩ := found
            exact .record (by simp [IsBuiltIn, generic, plain]) found empty

theorem Denotes.resolve (h : Denotes r name params d) : resolve r.lookup start name params cs = .ok d := by
  cases h with
  | nullable h => rcases h with rfl | rfl <;> rfl
  | list => rfl
  | map => rfl
  | tuple => rfl
  | plain plain empty =>
      have simple : name ∉ generics := fun generic => by simp [plain?_generic generic] at plain
      rw [resolve_simple simple, plain, Option.some_or]
      exact if_pos (no_params_iff.mpr empty)
  | record other found empty =>
      obtain ⟨simple, plain⟩ := not_or.mp other
      rw [resolve_simple simple, Option.not_isSome_iff_eq_none.mp plain, Option.none_or, Registry.lookup, found]
      exact if_pos (no_params_iff.mpr empty)

/-! ## Types -/

/-- Things one after another, a comma before each of them. -/
def followed : List (List Token) → List Token
  | [] => []
  | tokens :: more => .mark .comma :: (tokens ++ followed more)

/-- Things one after another, a comma before each but the first. -/
def separated : List (List Token) → List Token
  | [] => []
  | tokens :: more => tokens ++ followed more

def bracketed (lists : List (List Token)) : List Token :=
  .mark .opening :: (separated lists ++ [.mark .closing])

/-- The tokens are a type whose brackets nest at most so many levels deep, and it means the descriptor. -/
inductive Derives (r : Registry) : Nat → List Token → Descriptor → Prop
  | bare {levels name d} : Denotes r name none d → Derives r levels [.name name] d
  | applied {levels name d} (params : List (List Token × Descriptor)) :
      (∀ p ∈ params, Derives r levels p.1 p.2) → Denotes r name (some (params.map Prod.snd)) d →
      Derives r (levels + 1) (.name name :: bracketed (params.map Prod.fst)) d

/-- The text is a type, and it means the descriptor. -/
def Spells (r : Registry) (text : String) (d : Descriptor) : Prop :=
  ∃ tokens, Written tokens text.toList ∧ Derives r defaultMaxDepth tokens d

/-! ## What a parser of types reads -/

/-- Neither a name nor an opening bracket comes next, that would go on with a type before it. -/
def Ended (after : List Token) : Prop := Closed after ∧ after.head? ≠ some (.mark .opening)

theorem ended_nil : Ended [] := ⟨nofun, nofun⟩

theorem ended_mark {m : Mark} (h : m ≠ .opening) : Ended (.mark m :: after) :=
  ⟨nofun, by simpa using h⟩

theorem ended_closing : Ended (.mark .closing :: after) := ended_mark nofun

def StartsWithName (tokens : List Token) : Prop := ∃ name more, tokens = .name name :: more

/-- The parser reads the tokens from the front of any text and takes them for the descriptor. -/
structure Accepts (parser : Parser Descriptor) (tokens : List Token) (d : Descriptor) : Prop where
  named : StartsWithName tokens
  reads : ∀ {after : List Token} {cs : List Char}, Ended after →
    Written (tokens ++ after) cs → ∃ rest, parser cs = .ok (d, rest) ∧ Written after rest

def AcceptsOnly (parser : Parser Descriptor) (grammar : List Token → Descriptor → Prop) : Prop :=
  ∀ cs d rest, parser cs = .ok (d, rest) →
    ∃ tokens, grammar tokens d ∧ ∀ after, Written after rest → Written (tokens ++ after) cs

variable {parser : Parser Descriptor} {grammar : List Token → Descriptor → Prop}
  {items : List (List Token × Descriptor)}

theorem length_le_followed (lists : List (List Token)) : lists.length ≤ (followed lists).length := by
  induction lists with
  | nil => exact Nat.zero_le _
  | cons tokens lists ih =>
      simp only [followed, List.length_append, List.length_cons]
      omega

theorem ended_followed (lists : List (List Token)) (h : Ended after) : Ended (followed lists ++ after) := by
  cases lists with
  | nil => exact h
  | cons => exact ended_mark nofun

theorem bracketed_append (lists : List (List Token)) (after : List Token) :
    bracketed lists ++ after = .mark .opening :: (separated lists ++ .mark .closing :: after) := by
  rw [bracketed, List.cons_append, List.append_assoc, List.singleton_append]

/-- The rest of a list is read thing by thing, as long as there are things that can be read. -/
theorem restOf_passes (h : ∀ p ∈ items, Accepts parser p.1 p.2) (ended : Ended after) (fuel : Nat)
    (done : List Descriptor) (written : Written (followed (items.map Prod.fst) ++ after) cs) :
    ∃ rest, restOf parser '>' (items.length + fuel) done cs =
      restOf parser '>' fuel ((items.map Prod.snd).reverse ++ done) rest ∧ Written after rest := by
  -- Each thing takes one unit of fuel, and one more is for the closing bracket.
  induction items generalizing done cs with
  | nil => exact ⟨cs, by rw [List.length_nil, Nat.zero_add]; rfl, written⟩
  | cons p items ih =>
      obtain ⟨first, more⟩ := List.forall_mem_cons.mp h
      have going : eat? '>' cs = none := eat?_eq_none (m := .closing) written nofun
      rw [List.map_cons, followed, List.cons_append, List.append_assoc] at written
      obtain ⟨front, (comma : eat? ',' cs = some front), written⟩ := written_mark_iff_eat?.mp written
      obtain ⟨back, read, written⟩ := first.reads (ended_followed _ ended) written
      obtain ⟨rest, reads, others⟩ := ih more (p.2 :: done) written
      refine ⟨rest, ?_, others⟩
      rw [List.length_cons, Nat.add_right_comm, restOf, going, expect_eq_ok.mpr comma]
      simp only [read, reads, List.map_cons, List.reverse_cons, List.append_assoc, List.singleton_append]

theorem restOf_accepts (h : ∀ p ∈ items, Accepts parser p.1 p.2) {fuel : Nat} (enough : items.length < fuel)
    (done : List Descriptor)
    (written : Written (followed (items.map Prod.fst) ++ .mark .closing :: after) cs) :
    ∃ rest, restOf parser '>' fuel done cs = .ok (done.reverse ++ items.map Prod.snd, rest) ∧
      Written after rest := by
  obtain ⟨left, rfl⟩ := Nat.exists_eq_add_of_lt enough
  obtain ⟨back, reads, written⟩ := restOf_passes h ended_closing (left + 1) done written
  obtain ⟨rest, (closing : eat? '>' back = some rest), others⟩ := written_mark_iff_eat?.mp written
  refine ⟨rest, ?_, others⟩
  rw [Nat.add_assoc, reads, restOf, closing, List.reverse_append, List.reverse_reverse]

theorem restOf_acceptsOnly (h : AcceptsOnly parser grammar) {fuel : Nat} {done ds : List Descriptor}
    (read : restOf parser '>' fuel done cs = .ok (ds, rest)) :
    ∃ items : List (List Token × Descriptor), (∀ p ∈ items, grammar p.1 p.2) ∧
      ds = done.reverse ++ items.map Prod.snd ∧ ∀ after, Written after rest →
        Written (followed (items.map Prod.fst) ++ .mark .closing :: after) cs := by
  induction fuel generalizing done cs with
  | zero => cases read
  | succ fuel ih =>
      rw [restOf] at read
      split at read
      case h_1 closing =>
        cases read
        exact ⟨[], List.forall_mem_nil _, (List.append_nil _).symm,
          fun after others => written_mark_iff_eat?.mpr ⟨rest, closing, others⟩⟩
      case h_2 =>
        split at read
        case h_1 => cases read
        case h_2 front comma =>
          split at read
          case h_1 => cases read
          case h_2 d back first =>
            obtain ⟨tokens, derived, written⟩ := h _ _ _ first
            obtain ⟨items, more, rfl, others⟩ := ih read
            refine ⟨(tokens, d) :: items, List.forall_mem_cons.mpr ⟨derived, more⟩, by simp, fun after last => ?_⟩
            rw [List.map_cons, followed, List.cons_append, List.append_assoc]
            exact written_mark_iff_eat?.mpr ⟨front, expect_eq_ok.mp comma, written _ (others after last)⟩

theorem StartsWithName.goes_on {lists : List (List Token)} (named : StartsWithName tokens)
    (written : Written (separated (tokens :: lists) ++ after) cs) : eat? '>' cs = none := by
  obtain ⟨name, more, rfl⟩ := named
  exact eat?_eq_none (m := .closing) written nofun

theorem length_le_of_separated {lists : List (List Token)} {m : Mark}
    (written : Written (separated lists ++ .mark m :: after) cs) : lists.length ≤ cs.length := by
  refine le_trans ?_ written.length_le
  cases lists with
  | nil => exact Nat.zero_le _
  | cons tokens lists =>
      have := length_le_followed lists
      simp only [separated, List.length_append, List.length_cons]
      omega

theorem parameters_accepts (h : ∀ p ∈ items, Accepts parser p.1 p.2)
    (written : Written (separated (items.map Prod.fst) ++ .mark .closing :: after) cs) :
    ∃ rest, parameters parser cs = .ok (items.map Prod.snd, rest) ∧ Written after rest := by
  cases items with
  | nil =>
      obtain ⟨rest, (closing : eat? '>' cs = some rest), others⟩ := written_mark_iff_eat?.mp written
      refine ⟨rest, ?_, others⟩
      rw [parameters, closing, List.map_nil]
  | cons p items =>
      obtain ⟨first, more⟩ := List.forall_mem_cons.mp h
      have going := first.named.goes_on written
      have enough := length_le_of_separated written
      rw [List.length_map] at enough
      rw [List.map_cons, separated, List.append_assoc] at written
      obtain ⟨back, read, written⟩ := first.reads (ended_followed _ ended_closing) written
      obtain ⟨rest, reads, others⟩ := restOf_accepts more enough [p.2] written
      refine ⟨rest, ?_, others⟩
      rw [parameters, going]
      simp only [read, reads, List.reverse_singleton, List.singleton_append, List.map_cons]

theorem parameters_acceptsOnly (h : AcceptsOnly parser grammar) {ds : List Descriptor}
    (read : parameters parser cs = .ok (ds, rest)) :
    ∃ items : List (List Token × Descriptor), (∀ p ∈ items, grammar p.1 p.2) ∧ ds = items.map Prod.snd ∧
      ∀ after, Written after rest →
        Written (separated (items.map Prod.fst) ++ .mark .closing :: after) cs := by
  rw [parameters] at read
  split at read
  case h_1 closing =>
    cases read
    exact ⟨[], List.forall_mem_nil _, rfl,
      fun after others => written_mark_iff_eat?.mpr ⟨rest, closing, others⟩⟩
  case h_2 =>
    split at read
    case h_1 => cases read
    case h_2 d back first =>
      obtain ⟨tokens, derived, written⟩ := h _ _ _ first
      obtain ⟨items, more, rfl, others⟩ := restOf_acceptsOnly h read
      refine ⟨(tokens, d) :: items, List.forall_mem_cons.mpr ⟨derived, more⟩, by simp, fun after last => ?_⟩
      rw [List.map_cons, separated, List.append_assoc]
      exact written _ (others after last)

theorem typeWith_bare (denotes : Denotes r name none d) (inner : Option (Parser Descriptor)) :
    Accepts (typeWith r.lookup inner) [.name name] d where
  named := ⟨name, [], rfl⟩
  reads {after cs} ended written := by
    obtain ⟨rest, read, others⟩ := name_written written ended.1
    have bare : eat? '<' rest = none := eat?_eq_none (m := .opening) others ended.2
    refine ⟨skipBlanks rest, ?_, written_skipBlanks.mpr others⟩
    simp only [typeWith, read, bare, denotes.resolve, Except.map]

theorem typeWith_applied (h : ∀ p ∈ items, Accepts parser p.1 p.2)
    (denotes : Denotes r name (some (items.map Prod.snd)) d) :
    Accepts (typeWith r.lookup (some parser)) (.name name :: bracketed (items.map Prod.fst)) d where
  named := ⟨name, _, rfl⟩
  reads {after cs} _ written := by
    rw [List.cons_append, bracketed_append] at written
    obtain ⟨front, read, written⟩ := name_written written nofun
    obtain ⟨back, (opening : eat? '<' front = some back), written⟩ := written_mark_iff_eat?.mp written
    obtain ⟨rest, reads, others⟩ := parameters_accepts h written
    refine ⟨rest, ?_, others⟩
    simp only [typeWith, read, opening, reads, denotes.resolve, Except.map]

/-- A type is read that is bare, or has parameters in brackets if there is something to read them with. -/
theorem typeWith_reads {inner : Option (Parser Descriptor)}
    (read : typeWith r.lookup inner cs = .ok (d, rest)) :
    ∃ name, (Denotes r name none d ∧ ∀ after, Written after rest → Written (.name name :: after) cs) ∨
      ∃ parser ds front, inner = some parser ∧ parameters parser front = .ok (ds, rest) ∧
        Denotes r name (some ds) d ∧
        ∀ after, Written after front → Written (.name name :: .mark .opening :: after) cs := by
  rw [typeWith] at read
  split at read
  case h_1 => cases read
  case h_2 start name front named =>
    obtain ⟨-, written⟩ := written_of_name named
    refine ⟨name, ?_⟩
    split at read
    case h_1 =>
      obtain ⟨d, resolved, same⟩ := Except.map_eq_ok.mp read
      obtain ⟨rfl, rfl⟩ := Prod.mk.inj same
      exact .inl ⟨denotes_of_resolve resolved, fun after others => written _ (written_skipBlanks.mp others)⟩
    case h_2 inside opening =>
      split at read
      case h_1 => cases read
      case h_2 _ parser =>
        split at read
        case h_1 => cases read
        case h_2 ds back found =>
          obtain ⟨d, resolved, same⟩ := Except.map_eq_ok.mp read
          obtain ⟨rfl, rfl⟩ := Prod.mk.inj same
          exact .inr ⟨parser, ds, inside, rfl, found, denotes_of_resolve resolved,
            fun after others => written _ (written_mark_iff_eat?.mpr ⟨inside, opening, others⟩)⟩

theorem typeAt_eq (lookup : String → Option Descriptor) (levels : Nat) :
    ∃ inner, typeAt lookup levels = typeWith lookup inner := by
  cases levels with
  | zero => exact ⟨none, rfl⟩
  | succ levels => exact ⟨some (typeAt lookup levels), rfl⟩

/-- Every type of the grammar is read. -/
theorem Derives.accepts {levels : Nat} (h : Derives r levels tokens d) :
    Accepts (typeAt r.lookup levels) tokens d := by
  induction h with
  | @bare levels _ _ denotes =>
      obtain ⟨inner, eq⟩ := typeAt_eq r.lookup levels
      rw [eq]
      exact typeWith_bare denotes inner
  | applied params _ denotes ih => exact typeWith_applied ih denotes

/-- Nothing else is read. -/
theorem typeAt_acceptsOnly (levels : Nat) : AcceptsOnly (typeAt r.lookup levels) (Derives r levels) := by
  induction levels with
  | zero =>
      intro cs d rest read
      obtain ⟨name, ⟨denotes, written⟩ | ⟨_, _, _, absent, _⟩⟩ := typeWith_reads read
      · exact ⟨_, .bare denotes, written⟩
      · cases absent
  | succ levels ih =>
      intro cs d rest read
      obtain ⟨name, ⟨denotes, written⟩ | ⟨_, _, front, ⟨⟩, found, denotes, written⟩⟩ := typeWith_reads read
      · exact ⟨_, .bare denotes, written⟩
      · obtain ⟨items, derived, rfl, others⟩ := parameters_acceptsOnly ih found
        refine ⟨_, .applied items derived denotes, fun after last => ?_⟩
        rw [List.cons_append, bracketed_append]
        exact written _ (others after last)

theorem whole_eq_ok {α : Type} {parser : Parser α} {a : α} : whole parser cs = .ok a ↔
    ∃ rest, parser cs = .ok (a, rest) ∧ Written [] rest := by
  simp only [whole, written_nil]
  split
  case h_1 failed => simp [failed]
  case h_2 b rest read =>
    simp only [read, Except.ok.injEq, Prod.mk.injEq]
    split <;> simp_all

theorem run_eq_ok {α : Type} {parser : Parser α} {a : α} {text : String} :
    run parser text = .ok a ↔ whole parser text.toList = .ok a := by
  unfold run
  split <;> simp_all

theorem parse_eq_ok (r : Registry) (text : String) (d : Descriptor) :
    r.parse text = .ok d ↔ Spells r text d := by
  rw [Registry.parse, run_eq_ok, whole_eq_ok]
  constructor
  · rintro ⟨rest, read, last⟩
    obtain ⟨tokens, derived, written⟩ := typeAt_acceptsOnly _ _ _ _ read
    exact ⟨tokens, by simpa using written [] last, derived⟩
  · rintro ⟨tokens, written, derived⟩
    exact derived.accepts.reads ended_nil (by simpa using written)

theorem Spells.unique {text : String} {e : Descriptor} (first : Spells r text d) (second : Spells r text e) :
    d = e := by
  rw [← parse_eq_ok] at first second
  rw [first] at second
  cases second
  rfl

/-- A text is read as the descriptor that it spells, of which there is no other, and refused if it spells
none. -/
theorem parse_recognizes (r : Registry) (text : String) :
    (∀ d, r.parse text = .ok d ↔ Spells r text d) ∧
      (∀ d e, Spells r text d → Spells r text e → d = e) ∧
      ((∃ e, r.parse text = .error e) ↔ ∀ d, ¬ Spells r text d) := by
  refine ⟨parse_eq_ok r text, fun _ _ => Spells.unique, ?_⟩
  simp only [← parse_eq_ok]
  cases r.parse text <;> simp

/-- White space anywhere, an ideographic one among it, and brackets with nothing in them after a record. -/
theorem parse_recognizes_entries :
    let entry : RecordType := ⟨"entry", [("key", .string)]⟩
    let r := Registry.new.insert "entry" entry
    let text := "map < any,\u3000tuple<entry< >> > "
    let d := Descriptor.map .object (.tuple [entry.descriptor])
    Spells r text d ∧ ∀ e, Spells r text e → e = d := by
  intro entry r text d
  obtain ⟨reads, unique, -⟩ := parse_recognizes r text
  have spelled : Spells r text d := (reads d).mp (by decide +kernel)
  exact ⟨spelled, fun e other => unique e d other spelled⟩

end PackRpc.Descriptor
