import Hermas.Base.Check
import Hermas.Compiler.SchemaTypes
import Mathlib.Data.List.TakeWhile

/-!
# What the parser lets through

The names of a schema that is parsed are identifiers, its maps are in the order of their
names, and no expression is nested deeper than it may be written.
-/

namespace Hermas.Schema

/-- Begins like a name and goes on like one. -/
def Identifier (name : String) : Prop :=
  ∃ first rest, identifierStart first = true ∧ (∀ byte ∈ rest, identifierContinue byte = true) ∧
    name = text (first :: rest)

/-- The words that a type expression does not read as the name of a type. -/
def typeWords : List String :=
  ["Unit", "Integer", "Boolean", "String", "Bytes", "List", "record", "variant"]

mutual

/-- The names of an expression are identifiers, and its members are in order. -/
def TypeExpression.Lexical : TypeExpression → Prop
  | .named name _ => Identifier name
  | .record fields => Assoc.Sorted fields ∧ LexicalAll fields
  | .list element _ => element.Lexical
  | .variant cases => Assoc.Sorted cases ∧ LexicalAll cases
  | _ => True

def LexicalAll : List (String × TypeExpression) → Prop
  | [] => True
  | (name, member) :: members => (Identifier name ∧ member.Lexical) ∧ LexicalAll members

end

/-- The names of an action are identifiers, and none stands for no compensation. -/
structure ParsedAction.Lexical (action : ParsedAction) : Prop where
  input : Identifier action.input
  success : Identifier action.success
  error : Identifier action.error
  compensation : ∀ name, action.compensation = .action name → Identifier name ∧ name ≠ "none"

/-- What the parser makes sure of. -/
structure ParsedSchema.Lexical (parsed : ParsedSchema) : Prop where
  app : Identifier parsed.app
  typesSorted : Assoc.Sorted parsed.types
  types : ∀ entry ∈ parsed.types, Identifier entry.1 ∧ entry.2.expression.Lexical ∧
    entry.2.expression.levels ≤ maxRepresentationDepth + 1
  actionsSorted : Assoc.Sorted parsed.actions
  actions : ∀ entry ∈ parsed.actions, Identifier entry.1 ∧ entry.2.Lexical

theorem lexicalAll_iff {members : List (String × TypeExpression)} :
    LexicalAll members ↔ ∀ member ∈ members, Identifier member.1 ∧ member.2.Lexical := by
  induction members with
  | nil => simp [LexicalAll]
  | cons member members ih => simp [LexicalAll, ih]

theorem levelsAll_le {members : List (String × TypeExpression)} {levels : Nat} :
    levelsAll members ≤ levels ↔ ∀ member ∈ members, member.2.levels ≤ levels := by
  induction members with
  | nil => simp [levelsAll]
  | cons member members ih => simp [levelsAll, ih]

/-! ## Tokens -/

/-- The words among the tokens are identifiers, and the last token is none. -/
structure Tokens.Lexed (tokens : Tokens) : Prop where
  items : ∀ token ∈ tokens.items, ∀ value, token.kind = .identifier value → Identifier value
  last : tokens.last.kind = .stop

theorem identifier_text {byte : UInt8} {rest : Bytes} (h : identifierStart byte = true) :
    Identifier (text ((byte :: rest).takeWhile identifierContinue)) := by
  have hcontinue : identifierContinue byte = true := by simp [identifierContinue, h]
  rw [List.takeWhile_cons_of_pos hcontinue]
  exact ⟨byte, _, h, fun other hother => List.mem_takeWhile_imp hother, rfl⟩

theorem lexFrom_lexed {file : String} : ∀ {rounds : Nat} {place : Place} {source : Bytes}
    {items : List Token} {last : Token}, lexFrom file rounds place source = .ok (items, last) →
      (∀ token ∈ items, ∀ value, token.kind = .identifier value → Identifier value) ∧
        last.kind = .stop
  | _, _, [], _, _, h => by
      rw [lexFrom] at h
      cases h
      exact ⟨List.forall_mem_nil _, rfl⟩
  | 0, _, _ :: _, _, _, h => by
      cases h
      exact ⟨List.forall_mem_nil _, rfl⟩
  | rounds + 1, place, byte :: rest, items, last, h => by
      rw [lexFrom] at h
      split_ifs at h with hblank hnewline hcomment hstart hdigit
      · exact lexFrom_lexed h
      · exact lexFrom_lexed h
      · exact lexFrom_lexed h
      · simp only [bind_ok] at h
        obtain ⟨⟨tokens, stop⟩, hrest, h⟩ := h
        cases h
        obtain ⟨hitems, hlast⟩ := lexFrom_lexed hrest
        refine ⟨List.forall_mem_cons.mpr ⟨fun value hvalue => ?_, hitems⟩, hlast⟩
        cases hvalue
        exact identifier_text hstart
      · dsimp only at h
        split at h
        · cases h
        · simp only [bind_ok] at h
          obtain ⟨⟨tokens, stop⟩, hrest, h⟩ := h
          cases h
          obtain ⟨hitems, hlast⟩ := lexFrom_lexed hrest
          exact ⟨List.forall_mem_cons.mpr ⟨(fun value hvalue => by cases hvalue), hitems⟩, hlast⟩
      · split at h
        · cases h
        · simp only [bind_ok] at h
          obtain ⟨⟨tokens, stop⟩, hrest, h⟩ := h
          cases h
          obtain ⟨hitems, hlast⟩ := lexFrom_lexed hrest
          exact ⟨List.forall_mem_cons.mpr ⟨(fun value hvalue => by cases hvalue), hitems⟩, hlast⟩

namespace Tokens

variable {tokens rest : Tokens} {span : Span}

theorem Lexed.advance (h : tokens.Lexed) : tokens.advance.2.Lexed :=
  ⟨fun token hmem => h.items token (List.mem_of_mem_tail hmem), h.last⟩

/-- A word that is next is an identifier. -/
theorem Lexed.peek (h : tokens.Lexed) {value : String} (hpeek : tokens.peek.kind = .identifier value) :
    Identifier value := by
  obtain ⟨file, items, last⟩ := tokens
  cases items with
  | nil =>
      rw [show (Tokens.mk file [] last).peek.kind = last.kind from rfl, h.last] at hpeek
      cases hpeek
  | cons token items => exact h.items token List.mem_cons_self value hpeek

theorem expectIdentifier_ok {value : String}
    (h : tokens.expectIdentifier = .ok ((value, span), rest)) (hlexed : tokens.Lexed) :
    Identifier value ∧ rest.Lexed := by
  unfold expectIdentifier at h
  dsimp only at h
  split at h
  · rename_i found hfound
    cases h
    exact ⟨hlexed.peek hfound, hlexed.advance⟩
  · cases h

theorem expectKeyword_ok {word : String} (h : tokens.expectKeyword word = .ok (span, rest))
    (hlexed : tokens.Lexed) : rest.Lexed := by
  unfold expectKeyword at h
  dsimp only at h
  split_ifs at h
  cases h
  exact hlexed.advance

theorem expectNumber_ok {value : UInt32} (h : tokens.expectNumber = .ok ((value, span), rest))
    (hlexed : tokens.Lexed) : rest.Lexed := by
  unfold expectNumber at h
  dsimp only at h
  split at h
  · cases h
    exact hlexed.advance
  · cases h

theorem expectSymbol_ok {symbol : Symbol} (h : tokens.expectSymbol symbol = .ok (span, rest))
    (hlexed : tokens.Lexed) : rest.Lexed := by
  unfold expectSymbol at h
  dsimp only at h
  split_ifs at h
  cases h
  exact hlexed.advance

end Tokens

/-! ## Expressions -/

/-- What the members of an expression are like between two braces. -/
def MembersOf (good : TypeExpression → Prop) (members : List (String × TypeExpression)) : Prop :=
  Assoc.Sorted members ∧ ∀ member ∈ members, Identifier member.1 ∧ good member.2

section Members

variable {good : TypeExpression → Prop}
  {element : Tokens → Except SchemaDiagnostic (TypeExpression × Tokens)}
  {members members' : List (String × TypeExpression)} {tokens rest : Tokens}

theorem MembersOf.insert {name : String} {member : TypeExpression} (h : MembersOf good members)
    (hname : Identifier name) (hmember : good member) :
    MembersOf good (Assoc.insert name member members) := by
  refine ⟨h.1.insert, fun entry hentry => ?_⟩
  rcases Assoc.mem_insert hentry with rfl | hentry
  · exact ⟨hname, hmember⟩
  · exact h.2 entry hentry

theorem parseMembersFrom_ok
    (helement : ∀ {tokens expression rest}, element tokens = .ok (expression, rest) → tokens.Lexed →
      good expression ∧ rest.Lexed) :
    ∀ {rounds : Nat} {members : List (String × TypeExpression)} {tokens : Tokens},
      parseMembersFrom element rounds members tokens = .ok (members', rest) → tokens.Lexed →
        MembersOf good members → MembersOf good members' ∧ rest.Lexed
  | 0, members, tokens, h, hlexed, hmembers => by
      cases h
      exact ⟨hmembers, hlexed⟩
  | rounds + 1, members, tokens, h, hlexed, hmembers => by
      rw [parseMembersFrom] at h
      split_ifs at h
      · cases h
        exact ⟨hmembers, hlexed⟩
      · simp only [bind_ok] at h
        obtain ⟨⟨⟨name, span⟩, _⟩, hname, ⟨_, _⟩, hcolon, ⟨representation, _⟩, hmember, h⟩ := h
        split_ifs at h
        obtain ⟨hidentifier, hlexed⟩ := Tokens.expectIdentifier_ok hname hlexed
        obtain ⟨hgood, hlexed⟩ := helement hmember (Tokens.expectSymbol_ok hcolon hlexed)
        exact parseMembersFrom_ok helement h hlexed (hmembers.insert hidentifier hgood)

theorem parseMembers_ok
    (helement : ∀ {tokens expression rest}, element tokens = .ok (expression, rest) → tokens.Lexed →
      good expression ∧ rest.Lexed) {required : Bool}
    (h : parseMembers element required tokens = .ok (members, rest)) (hlexed : tokens.Lexed) :
    MembersOf good members ∧ rest.Lexed := by
  unfold parseMembers at h
  simp only [bind_ok] at h
  obtain ⟨⟨_, _⟩, hopen, ⟨_, _⟩, hmembers, ⟨_, _⟩, hclose, h⟩ := h
  split_ifs at h
  cases h
  obtain ⟨hgood, hlexed⟩ := parseMembersFrom_ok helement hmembers (Tokens.expectSymbol_ok hopen hlexed)
    ⟨List.Pairwise.nil, List.forall_mem_nil _⟩
  exact ⟨hgood, Tokens.expectSymbol_ok hclose hlexed⟩

end Members

/-- An expression that may stand where so many levels are left. -/
def Written (levels : Nat) (expression : TypeExpression) : Prop :=
  expression.Lexical ∧ expression.levels ≤ levels

theorem MembersOf.written {levels : Nat} {members : List (String × TypeExpression)}
    (h : MembersOf (Written levels) members) :
    (Assoc.Sorted members ∧ LexicalAll members) ∧ levelsAll members + 1 ≤ levels + 1 :=
  ⟨⟨h.1, lexicalAll_iff.mpr fun member hmem => ⟨(h.2 member hmem).1, (h.2 member hmem).2.1⟩⟩,
    Nat.succ_le_succ (levelsAll_le.mpr fun member hmem => (h.2 member hmem).2.2)⟩

/-- **An expression that is parsed is written as it may be.** -/
theorem parseTypeExpression_ok : ∀ {levels : Nat} {tokens : Tokens} {expression : TypeExpression}
    {rest : Tokens}, parseTypeExpression levels tokens = .ok (expression, rest) → tokens.Lexed →
      Written levels expression ∧ rest.Lexed
  | 0, _, _, _, h, _ => by cases h
  | levels + 1, tokens, expression, rest, h, hlexed => by
      have hleaf : 1 ≤ levels + 1 := Nat.succ_le_succ (Nat.zero_le _)
      rw [parseTypeExpression] at h
      simp only [bind_ok] at h
      obtain ⟨⟨⟨name, span⟩, _⟩, hname, h⟩ := h
      obtain ⟨hidentifier, hlexed⟩ := Tokens.expectIdentifier_ok hname hlexed
      split at h
      · cases h
        exact ⟨⟨trivial, hleaf⟩, hlexed⟩
      · cases h
        exact ⟨⟨trivial, hleaf⟩, hlexed⟩
      · cases h
        exact ⟨⟨trivial, hleaf⟩, hlexed⟩
      · simp only [bind_ok] at h
        obtain ⟨⟨_, _⟩, hopen, ⟨⟨_, _⟩, _⟩, hnumber, ⟨_, _⟩, hclose, h⟩ := h
        cases h
        exact ⟨⟨trivial, hleaf⟩, Tokens.expectSymbol_ok hclose
          (Tokens.expectNumber_ok hnumber (Tokens.expectSymbol_ok hopen hlexed))⟩
      · simp only [bind_ok] at h
        obtain ⟨⟨_, _⟩, hopen, ⟨⟨_, _⟩, _⟩, hnumber, ⟨_, _⟩, hclose, h⟩ := h
        cases h
        exact ⟨⟨trivial, hleaf⟩, Tokens.expectSymbol_ok hclose
          (Tokens.expectNumber_ok hnumber (Tokens.expectSymbol_ok hopen hlexed))⟩
      · simp only [bind_ok] at h
        obtain ⟨⟨_, _⟩, hopen, ⟨_, _⟩, helement, ⟨⟨_, _⟩, _⟩, hnumber, h⟩ := h
        split_ifs at h
        simp only [bind_ok] at h
        obtain ⟨⟨_, _⟩, hclose, h⟩ := h
        cases h
        obtain ⟨⟨hlexical, hlevels⟩, hlexed⟩ :=
          parseTypeExpression_ok helement (Tokens.expectSymbol_ok hopen hlexed)
        exact ⟨⟨hlexical, Nat.succ_le_succ hlevels⟩,
          Tokens.expectSymbol_ok hclose (Tokens.expectNumber_ok hnumber hlexed)⟩
      · simp only [bind_ok] at h
        obtain ⟨⟨_, _⟩, hmembers, h⟩ := h
        cases h
        obtain ⟨hgood, hlexed⟩ := parseMembers_ok parseTypeExpression_ok hmembers hlexed
        exact ⟨hgood.written, hlexed⟩
      · simp only [bind_ok] at h
        obtain ⟨⟨_, _⟩, hmembers, h⟩ := h
        cases h
        obtain ⟨hgood, hlexed⟩ := parseMembers_ok parseTypeExpression_ok hmembers hlexed
        exact ⟨hgood.written, hlexed⟩
      · cases h
        exact ⟨⟨hidentifier, hleaf⟩, hlexed⟩

/-! ## Declarations -/

theorem parseType_ok {types types' : List (String × TypeDeclaration)} {tokens rest : Tokens}
    (h : parseType types tokens = .ok (types', rest)) (hlexed : tokens.Lexed) :
    (∃ name declaration, Identifier name ∧
        Written (maxRepresentationDepth + 1) declaration.expression ∧
        types' = Assoc.insert name declaration types) ∧ rest.Lexed := by
  unfold parseType at h
  simp only [bind_ok] at h
  obtain ⟨⟨_, _⟩, hkeyword, ⟨⟨name, _⟩, _⟩, hname, ⟨_, _⟩, hequals, ⟨_, _⟩, hexpression, h⟩ := h
  split_ifs at h
  cases h
  obtain ⟨hidentifier, hlexed⟩ :=
    Tokens.expectIdentifier_ok hname (Tokens.expectKeyword_ok hkeyword hlexed)
  obtain ⟨hwritten, hlexed⟩ :=
    parseTypeExpression_ok hexpression (Tokens.expectSymbol_ok hequals hlexed)
  exact ⟨⟨name, _, hidentifier, hwritten, rfl⟩, hlexed⟩

theorem parseAction_ok {name : String} {action : ParsedAction} {tokens rest : Tokens}
    (h : parseAction tokens = .ok ((name, action), rest)) (hlexed : tokens.Lexed) :
    Identifier name ∧ action.Lexical ∧ rest.Lexed := by
  unfold parseAction at h
  simp only [bind_ok] at h
  obtain ⟨⟨_, _⟩, hkeyword, ⟨⟨_, _⟩, _⟩, hname, ⟨_, _⟩, hopen, ⟨_, _⟩, hinputWord,
    ⟨⟨_, _⟩, _⟩, hinput, ⟨_, _⟩, hsuccessWord, ⟨⟨_, _⟩, _⟩, hsuccess, ⟨_, _⟩, herrorWord,
    ⟨⟨_, _⟩, _⟩, herror, ⟨_, _⟩, hcompensationWord, ⟨⟨compensation, _⟩, _⟩, hcompensation,
    ⟨_, _⟩, hclose, h⟩ := h
  cases h
  obtain ⟨hnameId, hlexed⟩ :=
    Tokens.expectIdentifier_ok hname (Tokens.expectKeyword_ok hkeyword hlexed)
  obtain ⟨hinputId, hlexed⟩ := Tokens.expectIdentifier_ok hinput
    (Tokens.expectKeyword_ok hinputWord (Tokens.expectSymbol_ok hopen hlexed))
  obtain ⟨hsuccessId, hlexed⟩ :=
    Tokens.expectIdentifier_ok hsuccess (Tokens.expectKeyword_ok hsuccessWord hlexed)
  obtain ⟨herrorId, hlexed⟩ :=
    Tokens.expectIdentifier_ok herror (Tokens.expectKeyword_ok herrorWord hlexed)
  obtain ⟨hcompensationId, hlexed⟩ :=
    Tokens.expectIdentifier_ok hcompensation (Tokens.expectKeyword_ok hcompensationWord hlexed)
  refine ⟨hnameId, ⟨hinputId, hsuccessId, herrorId, fun named hnamed => ?_⟩,
    Tokens.expectSymbol_ok hclose hlexed⟩
  split_ifs at hnamed with hnone
  cases hnamed
  exact ⟨hcompensationId, hnone⟩

/-- What the maps of a schema are like while it is parsed. -/
structure DeclarationsLexical (types : List (String × TypeDeclaration))
    (actions : List (String × ParsedAction)) : Prop where
  typesSorted : Assoc.Sorted types
  types : ∀ entry ∈ types, Identifier entry.1 ∧
    Written (maxRepresentationDepth + 1) entry.2.expression
  actionsSorted : Assoc.Sorted actions
  actions : ∀ entry ∈ actions, Identifier entry.1 ∧ entry.2.Lexical

theorem parseDeclarations_ok {types' : List (String × TypeDeclaration)}
    {actions' : List (String × ParsedAction)} {rest : Tokens} :
    ∀ {rounds : Nat} {types : List (String × TypeDeclaration)}
      {actions : List (String × ParsedAction)} {tokens : Tokens},
      parseDeclarations rounds types actions tokens = .ok ((types', actions'), rest) →
        tokens.Lexed → DeclarationsLexical types actions → DeclarationsLexical types' actions'
  | 0, _, _, _, h, _, hlexical => by
      cases h
      exact hlexical
  | rounds + 1, types, actions, tokens, h, hlexed, hlexical => by
      rw [parseDeclarations] at h
      split_ifs at h
      · cases h
        exact hlexical
      · simp only [bind_ok] at h
        obtain ⟨⟨_, _⟩, htype, h⟩ := h
        obtain ⟨⟨name, declaration, hname, hwritten, rfl⟩, hlexed⟩ := parseType_ok htype hlexed
        refine parseDeclarations_ok h hlexed { hlexical with
          typesSorted := hlexical.typesSorted.insert, types := fun entry hentry => ?_ }
        rcases Assoc.mem_insert hentry with rfl | hentry
        · exact ⟨hname, hwritten⟩
        · exact hlexical.types entry hentry
      · simp only [bind_ok] at h
        obtain ⟨⟨⟨name, action⟩, _⟩, haction, h⟩ := h
        split_ifs at h
        obtain ⟨hname, hactionLexical, hlexed⟩ := parseAction_ok haction hlexed
        refine parseDeclarations_ok h hlexed { hlexical with
          actionsSorted := hlexical.actionsSorted.insert, actions := fun entry hentry => ?_ }
        rcases Assoc.mem_insert hentry with rfl | hentry
        · exact ⟨hname, hactionLexical⟩
        · exact hlexical.actions entry hentry

/-- **What is parsed has identifiers for names, maps in order and expressions within the levels.** -/
theorem parse_lexical {file : String} {source : Bytes} {parsed : ParsedSchema}
    (h : parse file source = .ok parsed) : parsed.Lexical := by
  unfold parse at h
  simp only [bind_ok] at h
  obtain ⟨⟨items, last⟩, hlex, ⟨_, _⟩, hkeyword, ⟨⟨app, _⟩, _⟩, happ, ⟨⟨types, actions⟩, _⟩,
    hdeclarations, _, -, h⟩ := h
  split_ifs at h
  cases h
  obtain ⟨hitems, hlast⟩ := lexFrom_lexed hlex
  obtain ⟨happId, hlexed⟩ :=
    Tokens.expectIdentifier_ok happ (Tokens.expectKeyword_ok hkeyword ⟨hitems, hlast⟩)
  have hlexical := parseDeclarations_ok hdeclarations hlexed
    ⟨List.Pairwise.nil, List.forall_mem_nil _, List.Pairwise.nil, List.forall_mem_nil _⟩
  exact ⟨happId, hlexical.typesSorted, hlexical.types, hlexical.actionsSorted, hlexical.actions⟩

end Hermas.Schema
