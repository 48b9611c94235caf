import Hermas.Compiler.SchemaText

/-!
# The order of a text

A schema is written as a row of words: declarations in some order, each with its members in
some order. The parser makes the same of texts that differ in these orders only
(`parse_words`).
-/

namespace Hermas.Schema

/-! ## The same is an equivalence -/

theorem SameMembers.perm_right {members others others' : List (String × TypeExpression)}
    (h : SameMembers members others) (hperm : others.Perm others') : SameMembers members others' := by
  induction members generalizing others others' with
  | nil =>
      rw [SameMembers] at h ⊢
      rw [h] at hperm
      exact hperm.nil_eq.symm
  | cons entry members ih =>
      obtain ⟨front, member', behind, rfl, hsame, hrest⟩ := h
      obtain ⟨front', behind', rfl⟩ :=
        List.append_of_mem (hperm.subset (List.mem_append_right front List.mem_cons_self))
      refine ⟨front', member', behind', rfl, hsame, ih hrest ?_⟩
      exact (List.perm_middle.symm.trans (hperm.trans List.perm_middle)).cons_inv

theorem SameMembers.cons_perm {name : String} {member member' : TypeExpression}
    {members others others' : List (String × TypeExpression)} (hsame : member.Same member')
    (h : SameMembers members others) (hperm : others'.Perm ((name, member') :: others)) :
    SameMembers ((name, member) :: members) others' := by
  have hfront : SameMembers ((name, member) :: members) ((name, member') :: others) :=
    ⟨[], member', others, rfl, hsame, h⟩
  exact hfront.perm_right hperm.symm

/-- A member is put in at any place. -/
theorem SameMembers.insert {name : String} {member member' : TypeExpression}
    {front behind others : List (String × TypeExpression)} (hsame : member.Same member')
    (h : SameMembers (front ++ behind) others) :
    SameMembers (front ++ (name, member) :: behind) ((name, member') :: others) := by
  induction front generalizing others with
  | nil => exact ⟨[], member', others, rfl, hsame, h⟩
  | cons entry front ih =>
      obtain ⟨front', first, behind', rfl, hfirst, hrest⟩ := h
      exact SameMembers.cons_perm hfirst (ih hrest)
        ((List.Perm.cons _ List.perm_middle).trans (List.Perm.swap _ _ _))

/-- A member is taken out at any place. -/
theorem SameMembers.extract {name : String} {member : TypeExpression}
    {front behind others : List (String × TypeExpression)}
    (h : SameMembers (front ++ (name, member) :: behind) others) :
    ∃ member' others', others.Perm ((name, member') :: others') ∧ member.Same member' ∧
      SameMembers (front ++ behind) others' := by
  induction front generalizing others with
  | nil =>
      obtain ⟨front', member', behind', rfl, hsame, hrest⟩ := h
      exact ⟨member', front' ++ behind', List.perm_middle, hsame, hrest⟩
  | cons entry front ih =>
      obtain ⟨front', first, behind', rfl, hfirst, hrest⟩ := h
      obtain ⟨member', others', hperm, hsame, hothers⟩ := ih hrest
      refine ⟨member', (entry.1, first) :: others', ?_, hsame, ?_⟩
      · exact List.perm_middle.trans ((List.Perm.cons _ hperm).trans (List.Perm.swap _ _ _))
      · exact SameMembers.cons_perm hfirst hothers (List.Perm.refl _)

mutual

theorem TypeExpression.Same.symm : ∀ {expression other : TypeExpression}, expression.Same other →
    other.Same expression
  | .unit, other, h | .integer, other, h | .boolean, other, h => by
      cases other <;> first | trivial | exact h.elim
  | .string _, other, h | .bytes _, other, h | .named _ _, other, h => by
      cases other <;> first | exact h.elim | exact Eq.symm h
  | .record fields, other, h => by
      cases other with
      | record fields' => exact sameMembers_symm h
      | _ => exact h.elim
  | .list element maximum, other, h => by
      cases other with
      | list element' maximum' => exact ⟨TypeExpression.Same.symm h.1, h.2.symm⟩
      | _ => exact h.elim
  | .variant cases, other, h => by
      cases other with
      | variant cases' => exact sameMembers_symm h
      | _ => exact h.elim

theorem sameMembers_symm : ∀ {members others : List (String × TypeExpression)},
    SameMembers members others → SameMembers others members
  | [], others, h => by
      rw [SameMembers] at h
      rw [h, SameMembers]
  | (name, member) :: members, others, h => by
      obtain ⟨front, member', behind, rfl, hsame, hrest⟩ := h
      exact SameMembers.insert (TypeExpression.Same.symm hsame) (sameMembers_symm hrest)

end

mutual

theorem TypeExpression.Same.trans : ∀ {expression other third : TypeExpression},
    expression.Same other → other.Same third → expression.Same third
  | .unit, other, third, h, h' | .integer, other, third, h, h' | .boolean, other, third, h, h' => by
      cases other <;> first | exact h' | exact h.elim
  | .string _, other, third, h, h' | .bytes _, other, third, h, h' | .named _ _, other, third, h, h' => by
      cases other <;> first | exact h.elim | (cases third <;> first | exact h'.elim | exact Eq.trans h h')
  | .record fields, other, third, h, h' => by
      cases other with
      | record fields' =>
          cases third with
          | record fields'' => exact sameMembers_trans h h'
          | _ => exact h'.elim
      | _ => exact h.elim
  | .list element maximum, other, third, h, h' => by
      cases other with
      | list element' maximum' =>
          cases third with
          | list element'' maximum'' => exact ⟨TypeExpression.Same.trans h.1 h'.1, h.2.trans h'.2⟩
          | _ => exact h'.elim
      | _ => exact h.elim
  | .variant cases, other, third, h, h' => by
      cases other with
      | variant cases' =>
          cases third with
          | variant cases'' => exact sameMembers_trans h h'
          | _ => exact h'.elim
      | _ => exact h.elim

theorem sameMembers_trans : ∀ {members others thirds : List (String × TypeExpression)},
    SameMembers members others → SameMembers others thirds → SameMembers members thirds
  | [], others, thirds, h, h' => by
      rw [SameMembers] at h
      rwa [h] at h'
  | (name, member) :: members, others, thirds, h, h' => by
      obtain ⟨front, member', behind, rfl, hsame, hrest⟩ := h
      obtain ⟨member'', rest, hperm, hsame', hrest'⟩ := h'.extract
      exact SameMembers.cons_perm (TypeExpression.Same.trans hsame hsame')
        (sameMembers_trans hrest hrest') hperm

end

/-! ## Words -/

mutual

/-- An expression as it is written, with its members in the order that they have. -/
def TypeExpression.words : TypeExpression → List TokenKind
  | .unit => [.identifier "Unit"]
  | .integer => [.identifier "Integer"]
  | .boolean => [.identifier "Boolean"]
  | .string maximum =>
      [.identifier "String", .symbol .leftAngle, .number maximum, .symbol .rightAngle]
  | .bytes maximum =>
      [.identifier "Bytes", .symbol .leftAngle, .number maximum, .symbol .rightAngle]
  | .named name _ => [.identifier name]
  | .record fields =>
      .identifier "record" :: .symbol .leftBrace :: (wordsAll fields ++ [.symbol .rightBrace])
  | .list element maximum =>
      .identifier "List" :: .symbol .leftAngle ::
        (element.words ++ [.number maximum.toUInt32, .symbol .rightAngle])
  | .variant cases =>
      .identifier "variant" :: .symbol .leftBrace :: (wordsAll cases ++ [.symbol .rightBrace])

def wordsAll : List (String × TypeExpression) → List TokenKind
  | [] => []
  | (name, member) :: members =>
      .identifier name :: .symbol .colon :: (member.words ++ wordsAll members)

end

/-- The words of a type are not read as names. -/
def TypeExpression.Proper (expression : TypeExpression) : Prop :=
  ∀ name ∈ expression.names, name ∉ typeWords

theorem length_wordsAll (members : List (String × TypeExpression)) :
    members.length ≤ (wordsAll members).length := by
  induction members with
  | nil => exact Nat.le_refl _
  | cons member members ih =>
      rw [wordsAll, List.length_cons, List.length_cons, List.length_cons, List.length_append]
      omega

namespace Tokens

variable {tokens rest : Tokens} {span : Span} {behind : List TokenKind}

/-- The words of the tokens that are left. -/
def words (tokens : Tokens) : List TokenKind := tokens.items.map (·.kind)

theorem advance_words {word : TokenKind} (h : tokens.words = word :: behind) :
    tokens.peek.kind = word ∧ tokens.advance.2.words = behind := by
  obtain ⟨file, items, last⟩ := tokens
  cases items with
  | nil => cases h
  | cons token items => exact ⟨(List.cons.inj h).1, (List.cons.inj h).2⟩

theorem expectIdentifier_words {value word : String}
    (h : tokens.expectIdentifier = .ok ((value, span), rest))
    (hwords : tokens.words = .identifier word :: behind) : value = word ∧ rest.words = behind := by
  obtain ⟨hpeek, hadvance⟩ := advance_words hwords
  unfold expectIdentifier at h
  dsimp only at h
  rw [show tokens.advance.1.kind = _ from hpeek] at h
  cases h
  exact ⟨rfl, hadvance⟩

theorem expectKeyword_words {expected : String} {word : TokenKind}
    (h : tokens.expectKeyword expected = .ok (span, rest)) (hwords : tokens.words = word :: behind) :
    rest.words = behind := by
  unfold expectKeyword at h
  dsimp only at h
  split_ifs at h
  cases h
  exact (advance_words hwords).2

theorem expectNumber_words {value number : UInt32}
    (h : tokens.expectNumber = .ok ((value, span), rest))
    (hwords : tokens.words = .number number :: behind) : value = number ∧ rest.words = behind := by
  obtain ⟨hpeek, hadvance⟩ := advance_words hwords
  unfold expectNumber at h
  dsimp only at h
  rw [show tokens.advance.1.kind = _ from hpeek] at h
  cases h
  exact ⟨rfl, hadvance⟩

theorem expectSymbol_words {symbol : Symbol} {word : TokenKind}
    (h : tokens.expectSymbol symbol = .ok (span, rest)) (hwords : tokens.words = word :: behind) :
    rest.words = behind := by
  unfold expectSymbol at h
  dsimp only at h
  split_ifs at h
  cases h
  exact (advance_words hwords).2

end Tokens

/-! ## Reading the words -/

section Reading

/-- An element is read as what it is written from. -/
def Reading (element : Tokens → Except SchemaDiagnostic (TypeExpression × Tokens))
    (written : TypeExpression) : Prop :=
  ∀ (tokens rest : Tokens) (expression : TypeExpression) (behind : List TokenKind),
    element tokens = .ok (expression, rest) → tokens.words = written.words ++ behind →
      written.Same expression ∧ rest.words = behind

variable {element : Tokens → Except SchemaDiagnostic (TypeExpression × Tokens)}
  {written : List (String × TypeExpression)} {behind : List TokenKind}

/-- **Members in any order are read as the same members.** -/
theorem parseMembersFrom_words {members : List (String × TypeExpression)} {rest : Tokens}
    (helement : ∀ member ∈ written, Reading element member.2) :
    ∀ {rounds : Nat} {prior : List (String × TypeExpression)} {tokens : Tokens},
      parseMembersFrom element rounds prior tokens = .ok (members, rest) →
        tokens.words = wordsAll written ++ .symbol .rightBrace :: behind → written.length < rounds →
          (∃ others, members.Perm (others ++ prior) ∧ SameMembers written others) ∧
            rest.words = .symbol .rightBrace :: behind := by
  induction written with
  | nil =>
      intro rounds prior tokens h hwords hrounds
      obtain ⟨rounds, rfl⟩ := Nat.exists_eq_succ_of_ne_zero (Nat.ne_of_gt hrounds)
      rw [parseMembersFrom, if_pos (.inl (Tokens.advance_words hwords).1)] at h
      cases h
      exact ⟨⟨[], List.Perm.refl _, rfl⟩, hwords⟩
  | cons entry written ih =>
      obtain ⟨name, member⟩ := entry
      intro rounds prior tokens h hwords hrounds
      obtain ⟨hmember, hbehind⟩ := List.forall_mem_cons.mp helement
      obtain ⟨rounds, rfl⟩ := Nat.exists_eq_succ_of_ne_zero (Nat.ne_of_gt (Nat.zero_lt_of_lt hrounds))
      rw [wordsAll, List.cons_append, List.cons_append, List.append_assoc] at hwords
      have hpeek := (Tokens.advance_words hwords).1
      rw [parseMembersFrom, if_neg (by rw [hpeek]; simp)] at h
      simp only [bind_ok] at h
      obtain ⟨⟨⟨found, span⟩, _⟩, hname, ⟨_, _⟩, hcolon, ⟨representation, _⟩, hrepresentation, h⟩ := h
      split_ifs at h with hknown
      obtain ⟨rfl, hnamed⟩ := Tokens.expectIdentifier_words hname hwords
      obtain ⟨hsame, hread⟩ :=
        hmember _ _ _ _ hrepresentation (Tokens.expectSymbol_words hcolon hnamed)
      obtain ⟨⟨others, hperm, hothers⟩, hrest⟩ := ih hbehind h hread (Nat.lt_of_succ_lt_succ hrounds)
      refine ⟨⟨(found, representation) :: others, hperm.trans ?_, ?_⟩, hrest⟩
      · have hnew : found ∉ prior.map Prod.fst := fun hmem => hknown (Assoc.isSome_lookup.mpr hmem)
        exact ((Assoc.perm_insert hnew).append_left others).trans List.perm_middle
      · exact ⟨[], representation, others, rfl, hsame, hothers⟩

theorem parseMembers_words {members : List (String × TypeExpression)} {tokens rest : Tokens}
    {required : Bool} (helement : ∀ member ∈ written, Reading element member.2)
    (h : parseMembers element required tokens = .ok (members, rest))
    (hwords : tokens.words =
      .symbol .leftBrace :: (wordsAll written ++ .symbol .rightBrace :: behind)) :
    SameMembers written members ∧ rest.words = behind := by
  unfold parseMembers at h
  simp only [bind_ok] at h
  obtain ⟨⟨_, opened⟩, hopen, ⟨_, _⟩, hmembers, ⟨_, _⟩, hclose, h⟩ := h
  split_ifs at h
  cases h
  have hopened := Tokens.expectSymbol_words hopen hwords
  have hrounds : written.length < opened.items.length + 1 := by
    have hlength := congrArg List.length hopened
    rw [Tokens.words, List.length_map, List.length_append] at hlength
    have := length_wordsAll written
    omega
  obtain ⟨⟨others, hperm, hsame⟩, hrest⟩ := parseMembersFrom_words helement hmembers hopened hrounds
  rw [List.append_nil] at hperm
  exact ⟨hsame.perm_right hperm.symm, Tokens.expectSymbol_words hclose hrest⟩

/-- The members of a proper expression are proper. -/
theorem proper_member {members : List (String × TypeExpression)}
    (h : ∀ name ∈ namesAll members, name ∉ typeWords) : ∀ member ∈ members, member.2.Proper :=
  fun member hmember name hname => h name (mem_namesAll.mpr ⟨member, hmember, hname⟩)

/-- **An expression is read as the one that is written**, in whatever order. -/
theorem parseTypeExpression_words : ∀ {levels : Nat} {written : TypeExpression}, written.Proper →
    Reading (parseTypeExpression levels) written
  | 0, _, _ => fun _ _ _ _ h _ => by cases h
  | levels + 1, written, hproper => by
      intro tokens rest expression behind h hwords
      rw [parseTypeExpression] at h
      simp only [bind_ok] at h
      obtain ⟨⟨⟨name, span⟩, named⟩, hname, h⟩ := h
      cases written with
      | unit | integer | boolean =>
          obtain ⟨rfl, hrest⟩ := Tokens.expectIdentifier_words hname hwords
          cases h
          exact ⟨trivial, hrest⟩
      | string maximum | bytes maximum =>
          obtain ⟨rfl, hrest⟩ := Tokens.expectIdentifier_words hname hwords
          simp only [bind_ok] at h
          obtain ⟨⟨_, _⟩, hopen, ⟨⟨_, _⟩, _⟩, hnumber, ⟨_, _⟩, hclose, h⟩ := h
          cases h
          obtain ⟨rfl, hlast⟩ :=
            Tokens.expectNumber_words hnumber (Tokens.expectSymbol_words hopen hrest)
          exact ⟨rfl, Tokens.expectSymbol_words hclose hlast⟩
      | named other span' =>
          obtain ⟨rfl, hrest⟩ := Tokens.expectIdentifier_words hname hwords
          have hword : name ∉ typeWords := hproper name (List.mem_singleton_self _)
          split at h
          case h_9 =>
            cases h
            exact ⟨rfl, hrest⟩
          all_goals
            subst_vars
            exact absurd (by decide) hword
      | record fields | variant fields =>
          rw [TypeExpression.words, List.cons_append, List.cons_append, List.append_assoc] at hwords
          obtain ⟨rfl, hrest⟩ := Tokens.expectIdentifier_words hname hwords
          simp only [bind_ok] at h
          obtain ⟨⟨_, _⟩, hmembers, h⟩ := h
          cases h
          exact parseMembers_words (fun member hmember =>
            parseTypeExpression_words (proper_member hproper member hmember)) hmembers hrest
      | list element maximum =>
          rw [TypeExpression.words, List.cons_append, List.cons_append, List.append_assoc] at hwords
          obtain ⟨rfl, hrest⟩ := Tokens.expectIdentifier_words hname hwords
          simp only [bind_ok] at h
          obtain ⟨⟨_, _⟩, hopen, ⟨_, _⟩, helement, ⟨⟨_, _⟩, _⟩, hnumber, h⟩ := h
          split_ifs at h
          simp only [bind_ok] at h
          obtain ⟨⟨_, _⟩, hclose, h⟩ := h
          cases h
          have hproper : element.Proper := hproper
          obtain ⟨hsame, hread⟩ := parseTypeExpression_words hproper _ _ _ _ helement
            (Tokens.expectSymbol_words hopen hrest)
          obtain ⟨rfl, hlast⟩ := Tokens.expectNumber_words hnumber hread
          exact ⟨⟨hsame, by simp⟩, Tokens.expectSymbol_words hclose hlast⟩

end Reading

/-! ## Declarations -/

/-- A declaration as it stands in a text; the places in it are not looked at. -/
inductive Declaration where
  | type (name : String) (expression : TypeExpression)
  | action (name : String) (action : ParsedAction)

/-- An action without its place in the text -/
def ParsedAction.placeless (action : ParsedAction) : ParsedAction := { action with span := .start }

namespace Declaration

def words : Declaration → List TokenKind
  | .type name expression =>
      .identifier "type" :: .identifier name :: .symbol .equals :: expression.words
  | .action name parsed =>
      [.identifier "action", .identifier name, .symbol .leftBrace,
        .identifier "input", .identifier parsed.input,
        .identifier "success", .identifier parsed.success,
        .identifier "error", .identifier parsed.error,
        .identifier "compensation", .identifier (writeCompensation parsed.compensation),
        .symbol .rightBrace]

/-- The words of the grammar are not taken for names. -/
def Proper : Declaration → Prop
  | .type _ expression => expression.Proper
  | .action _ parsed => parsed.compensation ≠ .action "none"

/-- The types among the declarations -/
def types : List Declaration → List (String × TypeExpression)
  | [] => []
  | .type name expression :: declarations => (name, expression) :: types declarations
  | .action _ _ :: declarations => types declarations

/-- The actions among the declarations -/
def actions : List Declaration → List (String × ParsedAction)
  | [] => []
  | .type _ _ :: declarations => actions declarations
  | .action name parsed :: declarations => (name, parsed.placeless) :: actions declarations

end Declaration

theorem length_declarations (declarations : List Declaration) :
    declarations.length ≤ (declarations.flatMap Declaration.words).length := by
  induction declarations with
  | nil => exact Nat.le_refl _
  | cons declaration declarations ih =>
      have hpos : 0 < declaration.words.length := by
        cases declaration <;> exact Nat.succ_pos _
      rw [List.flatMap_cons, List.length_append, List.length_cons]
      omega

/-- What the types of a schema are, without the places of their declarations. -/
def expressionsOf (types : List (String × TypeDeclaration)) : List (String × TypeExpression) :=
  types.map fun entry => (entry.1, entry.2.expression)

/-- What the actions of a schema are, without their places. -/
def placelessActions (actions : List (String × ParsedAction)) : List (String × ParsedAction) :=
  actions.map fun entry => (entry.1, entry.2.placeless)

section Declarations

variable {types types' : List (String × TypeDeclaration)} {actions actions' : List (String × ParsedAction)}
  {tokens rest : Tokens} {behind : List TokenKind}

theorem parseType_words {name : String} {written : TypeExpression} (hproper : written.Proper)
    (h : parseType types tokens = .ok (types', rest))
    (hwords : tokens.words = (Declaration.type name written).words ++ behind) :
    (∃ expression, (expressionsOf types').Perm ((name, expression) :: expressionsOf types) ∧
      written.Same expression) ∧ rest.words = behind := by
  unfold parseType at h
  simp only [bind_ok] at h
  obtain ⟨⟨_, _⟩, hkeyword, ⟨⟨found, _⟩, _⟩, hname, ⟨_, _⟩, hequals, ⟨expression, _⟩, hexpression, h⟩ := h
  split_ifs at h with hknown
  cases h
  obtain ⟨rfl, hnamed⟩ :=
    Tokens.expectIdentifier_words hname (Tokens.expectKeyword_words hkeyword hwords)
  obtain ⟨hsame, hrest⟩ := parseTypeExpression_words hproper _ _ _ _ hexpression
    (Tokens.expectSymbol_words hequals hnamed)
  have hnew : found ∉ types.map Prod.fst := fun hmem => hknown (Assoc.isSome_lookup.mpr hmem)
  exact ⟨⟨expression, (Assoc.perm_insert hnew).map _, hsame⟩, hrest⟩

/-- A compensation is read as it is written. -/
theorem read_writeCompensation {compensation : ParsedCompensation}
    (h : compensation ≠ .action "none") :
    (if writeCompensation compensation = "none" then ParsedCompensation.none
      else .action (writeCompensation compensation)) = compensation := by
  cases compensation with
  | none => rfl
  | action name => exact if_neg fun hname => h (congrArg ParsedCompensation.action hname)

theorem parseAction_words {name found : String} {written action : ParsedAction}
    (hproper : written.compensation ≠ .action "none")
    (h : parseAction tokens = .ok ((found, action), rest))
    (hwords : tokens.words = (Declaration.action name written).words ++ behind) :
    found = name ∧ action.placeless = written.placeless ∧ rest.words = behind := by
  unfold parseAction at h
  simp only [bind_ok] at h
  obtain ⟨⟨_, _⟩, hkeyword, ⟨⟨_, _⟩, _⟩, hname, ⟨_, _⟩, hopen, ⟨_, _⟩, hinputWord,
    ⟨⟨_, _⟩, _⟩, hinput, ⟨_, _⟩, hsuccessWord, ⟨⟨_, _⟩, _⟩, hsuccess, ⟨_, _⟩, herrorWord,
    ⟨⟨_, _⟩, _⟩, herror, ⟨_, _⟩, hcompensationWord, ⟨⟨compensation, _⟩, _⟩, hcompensation,
    ⟨_, _⟩, hclose, h⟩ := h
  cases h
  obtain ⟨rfl, hrest⟩ :=
    Tokens.expectIdentifier_words hname (Tokens.expectKeyword_words hkeyword hwords)
  obtain ⟨rfl, hrest⟩ := Tokens.expectIdentifier_words hinput
    (Tokens.expectKeyword_words hinputWord (Tokens.expectSymbol_words hopen hrest))
  obtain ⟨rfl, hrest⟩ :=
    Tokens.expectIdentifier_words hsuccess (Tokens.expectKeyword_words hsuccessWord hrest)
  obtain ⟨rfl, hrest⟩ :=
    Tokens.expectIdentifier_words herror (Tokens.expectKeyword_words herrorWord hrest)
  obtain ⟨rfl, hrest⟩ :=
    Tokens.expectIdentifier_words hcompensation (Tokens.expectKeyword_words hcompensationWord hrest)
  refine ⟨rfl, ?_, Tokens.expectSymbol_words hclose hrest⟩
  rw [ParsedAction.placeless, ParsedAction.placeless]
  dsimp only
  rw [read_writeCompensation hproper]

/-- **Declarations are read as those that are written**, whatever their order. -/
theorem parseDeclarations_words {declarations : List Declaration}
    (hproper : ∀ declaration ∈ declarations, declaration.Proper) :
    ∀ {rounds : Nat} {types : List (String × TypeDeclaration)}
      {actions : List (String × ParsedAction)} {tokens : Tokens},
      parseDeclarations rounds types actions tokens = .ok ((types', actions'), rest) →
        tokens.Lexed → tokens.words = declarations.flatMap Declaration.words →
        declarations.length < rounds →
          (∃ others, (expressionsOf types').Perm (others ++ expressionsOf types) ∧
            SameMembers (Declaration.types declarations) others) ∧
          (placelessActions actions').Perm
            (Declaration.actions declarations ++ placelessActions actions) := by
  induction declarations with
  | nil =>
      intro rounds types actions tokens h hlexed hwords hrounds
      obtain ⟨rounds, rfl⟩ := Nat.exists_eq_succ_of_ne_zero (Nat.ne_of_gt hrounds)
      have hpeek : tokens.peek.kind = .stop := by
        obtain ⟨file, items, last⟩ := tokens
        obtain rfl := List.map_eq_nil_iff.mp hwords
        exact hlexed.last
      rw [parseDeclarations, if_pos hpeek] at h
      cases h
      exact ⟨⟨[], List.Perm.refl _, rfl⟩, List.Perm.refl _⟩
  | cons declaration declarations ih =>
      intro rounds types actions tokens h hlexed hwords hrounds
      obtain ⟨hfirst, hbehind⟩ := List.forall_mem_cons.mp hproper
      obtain ⟨rounds, rfl⟩ := Nat.exists_eq_succ_of_ne_zero (Nat.ne_of_gt (Nat.zero_lt_of_lt hrounds))
      have hless : declarations.length < rounds := Nat.lt_of_succ_lt_succ hrounds
      rw [List.flatMap_cons] at hwords
      cases declaration with
      | type name written =>
          have hpeek := (Tokens.advance_words hwords).1
          rw [parseDeclarations, if_neg (by rw [hpeek]; simp),
            if_pos (by rw [Tokens.checkKeyword, hpeek]; rfl)] at h
          simp only [bind_ok] at h
          obtain ⟨⟨between, _⟩, htype, h⟩ := h
          obtain ⟨⟨expression, hperm, hsame⟩, hrest⟩ := parseType_words hfirst htype hwords
          obtain ⟨⟨others, hothers, hsames⟩, hactions⟩ :=
            ih hbehind h (parseType_ok htype hlexed).2 hrest hless
          refine ⟨⟨(name, expression) :: others, hothers.trans ?_, ?_⟩, hactions⟩
          · exact (hperm.append_left others).trans List.perm_middle
          · exact ⟨[], expression, others, rfl, hsame, hsames⟩
      | action name written =>
          have hpeek := (Tokens.advance_words hwords).1
          rw [parseDeclarations, if_neg (by rw [hpeek]; simp),
            if_neg (by rw [Tokens.checkKeyword, hpeek]; decide),
            if_pos (by rw [Tokens.checkKeyword, hpeek]; rfl)] at h
          simp only [bind_ok] at h
          obtain ⟨⟨⟨found, action⟩, _⟩, haction, h⟩ := h
          split_ifs at h with hknown
          obtain ⟨rfl, hplaceless, hrest⟩ := parseAction_words hfirst haction hwords
          obtain ⟨htypes, hactions⟩ := ih hbehind h (parseAction_ok haction hlexed).2.2 hrest hless
          have hnew : found ∉ actions.map Prod.fst := fun hmem =>
            hknown (Assoc.isSome_lookup.mpr hmem)
          have hinsert : (placelessActions (Assoc.insert found action actions)).Perm
              ((found, written.placeless) :: placelessActions actions) := by
            rw [← hplaceless]
            exact (Assoc.perm_insert hnew).map _
          exact ⟨htypes, hactions.trans ((hinsert.append_left _).trans List.perm_middle)⟩

/-- A source text that is written like this. -/
structure Writes (file : String) (source : Bytes) (app : String) (declarations : List Declaration) :
    Prop where
  lexed : ∃ items last, lex file source = .ok (items, last) ∧ items.map (·.kind) =
    .identifier "app" :: .identifier app :: declarations.flatMap Declaration.words
  proper : ∀ declaration ∈ declarations, declaration.Proper

/-- **A schema is read as the one that is written**, whatever the order of its text. -/
theorem parse_words {file : String} {source : Bytes} {parsed : ParsedSchema} {app : String}
    {declarations : List Declaration} (h : parse file source = .ok parsed)
    (hwrites : Writes file source app declarations) :
    parsed.app = app ∧ SameMembers (Declaration.types declarations) (expressionsOf parsed.types) ∧
      (placelessActions parsed.actions).Perm (Declaration.actions declarations) := by
  obtain ⟨items, last, hlex, hitems⟩ := hwrites.lexed
  obtain ⟨hidentifiers, hlast⟩ := lexFrom_lexed hlex
  unfold parse at h
  simp only [bind_ok] at h
  obtain ⟨⟨_, _⟩, hlex', ⟨_, _⟩, hkeyword, ⟨⟨found, _⟩, read⟩, happ, ⟨⟨types, actions⟩, _⟩,
    hdeclarations, _, -, h⟩ := h
  rw [hlex] at hlex'
  cases hlex'
  split_ifs at h
  cases h
  have hwords : Tokens.words { file, items, last } = _ := hitems
  obtain ⟨rfl, hread⟩ :=
    Tokens.expectIdentifier_words happ (Tokens.expectKeyword_words hkeyword hwords)
  obtain ⟨-, hlexed⟩ := Tokens.expectIdentifier_ok happ
    (Tokens.expectKeyword_ok hkeyword ⟨hidentifiers, hlast⟩)
  have hrounds : declarations.length < read.items.length + 1 := by
    have hlength := congrArg List.length hread
    rw [Tokens.words, List.length_map] at hlength
    have := length_declarations declarations
    omega
  obtain ⟨⟨others, hperm, hsame⟩, hactions⟩ :=
    parseDeclarations_words hwrites.proper hdeclarations hlexed hread hrounds
  rw [expressionsOf, expressionsOf, List.map_nil, List.append_nil] at hperm
  rw [placelessActions, placelessActions, List.map_nil, List.append_nil] at hactions
  exact ⟨rfl, hsame.perm_right hperm.symm, hactions⟩

end Declarations

end Hermas.Schema
