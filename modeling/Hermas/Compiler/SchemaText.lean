import Hermas.Base.Delimited
import Hermas.Base.DepthFirst
import Hermas.Compiler.SchemaParse
import Std.Data.String.ToNat

/-!
# The canonical text of an action

The fingerprint of an action is taken of a text that names the app, the action, the
declarations of all types behind its ports, the ports and the compensation. An expression
can be read off its text again, whatever stands behind it (`writeTypeExpression_inj`), and
expressions that are the same but for places and order have one text
(`writeTypeExpression_same`).
-/

namespace Hermas.Schema

mutual

/-- `write_type_expression` -/
def writeTypeExpression : TypeExpression → String
  | .unit => "unit"
  | .integer => "integer"
  | .boolean => "boolean"
  | .string maximum => "string<" ++ toString maximum ++ ">"
  | .bytes maximum => "bytes<" ++ toString maximum ++ ">"
  | .named name _ => "named:" ++ name
  | .record fields => "record\x7b" ++ writeMembers fields ++ "\x7d"
  | .list element maximum => "list<" ++ writeTypeExpression element ++ "," ++ toString maximum ++ ">"
  | .variant cases => "variant\x7b" ++ writeMembers cases ++ "\x7d"

def writeMembers : List (String × TypeExpression) → String
  | [] => ""
  | (name, member) :: members =>
      name ++ ":" ++ writeTypeExpression member ++ ";" ++ writeMembers members

end

/-- `collect_type_references`, with what is done with a name. -/
def collectTypeReferences (collect : List String → String → List String) (reachable : List String)
    (expression : TypeExpression) : List String :=
  expression.names.foldl collect reachable

/-- `collect_reachable_type`. A level down another name is new, so that the declarations bound the
levels. -/
def collectReachableType (types : List (String × TypeDeclaration)) :
    Nat → List String → String → List String
  | 0, reachable, name =>
      if name ∈ reachable then reachable else reachable.orderedInsert (· ≤ ·) name
  | levels + 1, reachable, name =>
      if name ∈ reachable then reachable
      else
        let reachable := reachable.orderedInsert (· ≤ ·) name
        match types.lookup name with
        | none => reachable
        | some declaration =>
            collectTypeReferences (collectReachableType types levels) reachable declaration.expression

/-- The types that an action names. -/
def ParsedAction.ports (action : ParsedAction) : List String :=
  [action.input, action.success, action.error]

/-- The types behind the ports of an action, in the order of their names. -/
def reachableTypes (parsed : ParsedSchema) (action : ParsedAction) : List String :=
  action.ports.foldl (collectReachableType parsed.types parsed.types.length) []

/-- A line for each type -/
def writeTypes (types : List (String × TypeDeclaration)) : List String → Option String
  | [] => some ""
  | name :: names => do
      let declaration ← types.lookup name
      let lines ← writeTypes types names
      some ("type:" ++ name ++ "=" ++ writeTypeExpression declaration.expression ++ "\n" ++ lines)

def writeCompensation : ParsedCompensation → String
  | .none => "none"
  | .action name => name

/-- The text that `action_fingerprint` takes its digest of; it panics where a type is not
declared. -/
def actionText (parsed : ParsedSchema) (name : String) (action : ParsedAction) : Option String := do
  let lines ← writeTypes parsed.types (reachableTypes parsed action)
  some ("hermas-action-v1\napp:" ++ parsed.app ++ "\naction:" ++ name ++ "\n" ++ lines ++ "ports:" ++
    action.input ++ "->" ++ action.success ++ "!" ++ action.error ++ "\ncompensation:" ++
    writeCompensation action.compensation ++ "\n")

/-! ## The same expressions -/

mutual

/-- The same expression but for places in the text and the order of members. -/
def TypeExpression.Same : TypeExpression → TypeExpression → Prop
  | .unit, .unit => True
  | .integer, .integer => True
  | .boolean, .boolean => True
  | .string maximum, .string maximum' => maximum = maximum'
  | .bytes maximum, .bytes maximum' => maximum = maximum'
  | .named name _, .named name' _ => name = name'
  | .record fields, .record fields' => SameMembers fields fields'
  | .list element maximum, .list element' maximum' => element.Same element' ∧ maximum = maximum'
  | .variant cases, .variant cases' => SameMembers cases cases'
  | _, _ => False

def SameMembers : List (String × TypeExpression) → List (String × TypeExpression) → Prop
  | [], members' => members' = []
  | (name, member) :: members, members' => ∃ front member' behind,
      members' = front ++ (name, member') :: behind ∧ member.Same member' ∧
        SameMembers members (front ++ behind)

end

/-- The same members have the same names. -/
theorem SameMembers.perm {members members' : List (String × TypeExpression)}
    (h : SameMembers members members') :
    (members.map Prod.fst).Perm (members'.map Prod.fst) := by
  induction members generalizing members' with
  | nil =>
      rw [SameMembers] at h
      rw [h]
  | cons member members ih =>
      obtain ⟨front, member', behind, rfl, -, hrest⟩ := h
      have hperm := ih hrest
      rw [List.map_append] at hperm ⊢
      exact (List.Perm.cons _ hperm).trans List.perm_middle.symm

/-- In the order of the names the same members stand beside each other. -/
theorem SameMembers.cons {name : String} {member : TypeExpression}
    {members members' : List (String × TypeExpression)}
    (h : SameMembers ((name, member) :: members) members')
    (hsorted : Assoc.Sorted ((name, member) :: members)) (hsorted' : Assoc.Sorted members') :
    ∃ member' behind, members' = (name, member') :: behind ∧ member.Same member' ∧
      SameMembers members behind := by
  have hkeys : ((name, member) :: members).map Prod.fst = members'.map Prod.fst :=
    h.perm.eq_of_pairwise (fun a b _ _ hab hba => absurd hab (lt_asymm hba)) hsorted hsorted'
  obtain ⟨front, member', behind, rfl, hsame, hrest⟩ := h
  cases front with
  | nil => exact ⟨member', behind, rfl, hsame, hrest⟩
  | cons first front =>
      -- the name would be there twice
      have hfirst : name = first.1 := (List.cons.inj hkeys).1
      have hnodup := hsorted'.nodup
      rw [List.map_append, List.map_cons, List.map_cons, hfirst] at hnodup
      simp at hnodup

mutual

/-- **The same expressions have one text.** -/
theorem writeTypeExpression_same : ∀ {expression other : TypeExpression}, expression.Same other →
    expression.Lexical → other.Lexical → writeTypeExpression expression = writeTypeExpression other
  | .unit, other, h, _, _ | .integer, other, h, _, _ | .boolean, other, h, _, _ => by
      cases other <;> first | rfl | exact h.elim
  | .string _, other, h, _, _ | .bytes _, other, h, _, _ | .named _ _, other, h, _, _ => by
      cases other <;> first | exact h.elim | (rw [TypeExpression.Same] at h; subst h; rfl)
  | .record fields, other, h, hl, hl' => by
      cases other with
      | record fields' =>
          rw [writeTypeExpression, writeTypeExpression, writeMembers_same h hl.1 hl.2 hl'.1 hl'.2]
      | _ => exact h.elim
  | .list element maximum, other, h, hl, hl' => by
      cases other with
      | list element' maximum' =>
          obtain ⟨hsame, rfl⟩ := h
          rw [writeTypeExpression, writeTypeExpression, writeTypeExpression_same hsame hl hl']
      | _ => exact h.elim
  | .variant cases, other, h, hl, hl' => by
      cases other with
      | variant cases' =>
          rw [writeTypeExpression, writeTypeExpression, writeMembers_same h hl.1 hl.2 hl'.1 hl'.2]
      | _ => exact h.elim

theorem writeMembers_same : ∀ {members others : List (String × TypeExpression)},
    SameMembers members others → Assoc.Sorted members → LexicalAll members → Assoc.Sorted others →
      LexicalAll others → writeMembers members = writeMembers others
  | [], others, h, _, _, _, _ => by
      rw [SameMembers] at h
      rw [h]
  | (name, member) :: members, others, h, hsorted, hl, hsorted', hl' => by
      obtain ⟨member', behind, rfl, hsame, hrest⟩ := h.cons hsorted hsorted'
      rw [writeMembers, writeMembers, writeTypeExpression_same hsame hl.1.2 hl'.1.2,
        writeMembers_same hrest hsorted.tail hl.2 hsorted'.tail hl'.2]

end

/-! ## Reading a text -/

/-- A sign of a name. -/
def NameSign (c : Char) : Prop := c.isAlphanum ∨ c = '_' ∨ c = '-'

instance : DecidablePred NameSign := fun c => inferInstanceAs (Decidable (_ ∨ _))

theorem nameSign_of_continue {byte : UInt8} (h : identifierContinue byte = true) :
    NameSign (Char.ofNat byte.toNat) := by
  have hall : ∀ n : Fin 256, identifierContinue (UInt8.ofNat n) = true → NameSign (Char.ofNat n) := by
    decide +kernel
  have hbyte := hall ⟨byte.toNat, byte.toNat_lt⟩
  rw [UInt8.ofNat_toNat] at hbyte
  exact hbyte h

theorem Identifier.signs {name : String} (h : Identifier name) : ∀ c ∈ name.toList, NameSign c := by
  obtain ⟨first, rest, hfirst, hrest, rfl⟩ := h
  rw [text, String.toList_ofList]
  intro c hc
  obtain ⟨byte, hbyte, rfl⟩ := List.mem_map.mp hc
  refine nameSign_of_continue ?_
  rcases List.mem_cons.mp hbyte with rfl | hbyte
  · simp [identifierContinue, hfirst]
  · exact hrest byte hbyte

theorem Identifier.ne_nil {name : String} (h : Identifier name) : name.toList ≠ [] := by
  obtain ⟨first, rest, -, -, rfl⟩ := h
  rw [text, String.toList_ofList]
  exact List.cons_ne_nil _ _

/-- A name ends where no sign of a name stands. -/
theorem name_append_inj {name name' : String} (h : Identifier name) (h' : Identifier name')
    {rest rest' : List Char} (hrest : WordEnds NameSign rest) (hrest' : WordEnds NameSign rest')
    (heq : name.toList ++ rest = name'.toList ++ rest') : name = name' ∧ rest = rest' := by
  obtain ⟨hname, hrests⟩ := word_append_inj h.signs h'.signs hrest hrest' heq
  exact ⟨String.toList_inj.mp hname, hrests⟩

/-- A number ends where no digit stands. -/
theorem number_append_inj {n m : Nat} {rest rest' : List Char} (hrest : WordEnds (·.isDigit) rest)
    (hrest' : WordEnds (·.isDigit) rest')
    (heq : (toString n).toList ++ rest = (toString m).toList ++ rest') : n = m ∧ rest = rest' := by
  have hdigits : ∀ n : Nat, ∀ c ∈ (toString n).toList, c.isDigit := by
    intro n c hc
    rw [Nat.toString_eq_repr, Nat.repr, String.toList_ofList] at hc
    exact Nat.isDigit_of_mem_toDigits (by decide) (by decide) hc
  obtain ⟨hnumber, hrests⟩ := word_append_inj (hdigits n) (hdigits m) hrest hrest' heq
  exact ⟨Nat.repr_injective (String.toList_inj.mp hnumber), hrests⟩

/-- The word that the text of an expression begins with. -/
def TypeExpression.opening : TypeExpression → String
  | .unit => "unit"
  | .integer => "integer"
  | .boolean => "boolean"
  | .string _ => "string<"
  | .bytes _ => "bytes<"
  | .named _ _ => "named:"
  | .record _ => "record\x7b"
  | .list _ _ => "list<"
  | .variant _ => "variant\x7b"

/-- What is behind that word. -/
def TypeExpression.body : TypeExpression → String
  | .unit | .integer | .boolean => ""
  | .string maximum | .bytes maximum => toString maximum ++ ">"
  | .named name _ => name
  | .record fields | .variant fields => writeMembers fields ++ "\x7d"
  | .list element maximum => writeTypeExpression element ++ "," ++ toString maximum ++ ">"

theorem write_eq (expression : TypeExpression) :
    writeTypeExpression expression = expression.opening ++ expression.body := by
  cases expression <;>
    simp [writeTypeExpression, TypeExpression.opening, TypeExpression.body, String.append_assoc]

def openings : List String :=
  ["unit", "integer", "boolean", "string<", "bytes<", "named:", "record\x7b", "list<", "variant\x7b"]

theorem opening_mem (expression : TypeExpression) : expression.opening ∈ openings := by
  cases expression <;> simp [TypeExpression.opening, openings]

/-- The first word of a text is determined. -/
theorem opening_append_inj {expression other : TypeExpression} {rest rest' : List Char}
    (h : expression.opening.toList ++ rest = other.opening.toList ++ rest') :
    expression.opening = other.opening ∧ rest = rest' := by
  have hfree : ∀ w ∈ openings.map String.toList, ∀ w' ∈ openings.map String.toList,
      w <+: w' → w = w' := by decide
  obtain ⟨hword, hrest⟩ := prefix_append_inj hfree (List.mem_map_of_mem (opening_mem expression))
    (List.mem_map_of_mem (opening_mem other)) h
  exact ⟨String.toList_inj.mp hword, hrest⟩

/-- What stands behind an expression. -/
def Closes (rest : List Char) : Prop := ∃ sign behind, rest = sign :: behind ∧ sign ∈ [';', ',', '\n']

theorem Closes.ends {rest : List Char} (h : Closes rest) : WordEnds NameSign rest := by
  obtain ⟨sign, behind, rfl, hsign⟩ := h
  simp only [List.mem_cons, List.not_mem_nil, or_false] at hsign
  rcases hsign with rfl | rfl | rfl
  · exact (by decide : ¬ NameSign ';')
  · exact (by decide : ¬ NameSign ',')
  · exact (by decide : ¬ NameSign '\n')

theorem closes_cons {sign : Char} {behind : List Char} (h : sign ∈ [';', ',', '\n']) :
    Closes (sign :: behind) :=
  ⟨sign, behind, rfl, h⟩

theorem number_close_inj {n m : Nat} {rest rest' : List Char}
    (heq : (toString n).toList ++ '>' :: rest = (toString m).toList ++ '>' :: rest') :
    n = m ∧ rest = rest' := by
  have hsign : ¬ '>'.isDigit = true := by decide
  have hclose : ∀ behind, WordEnds (·.isDigit) ('>' :: behind) := fun _ => hsign
  obtain ⟨rfl, hrest⟩ := number_append_inj (hclose rest) (hclose rest') heq
  exact ⟨rfl, (List.cons.inj hrest).2⟩

theorem ends_colon {behind : List Char} : WordEnds NameSign (':' :: behind) :=
  (by decide : ¬ NameSign ':')

theorem ends_brace {behind : List Char} : WordEnds NameSign ('\x7d' :: behind) :=
  (by decide : ¬ NameSign '\x7d')

theorem writeMembers_cons {name : String} {member : TypeExpression}
    {members : List (String × TypeExpression)} {rest : List Char} :
    (writeMembers ((name, member) :: members)).toList ++ rest =
      name.toList ++ ':' :: ((writeTypeExpression member).toList ++
        ';' :: ((writeMembers members).toList ++ rest)) := by
  simp [writeMembers]

mutual

/-- **An expression is read off its text**, whatever stands behind it. -/
theorem writeTypeExpression_inj : ∀ {expression other : TypeExpression} {rest rest' : List Char},
    expression.Lexical → other.Lexical → Closes rest → Closes rest' →
      (writeTypeExpression expression).toList ++ rest = (writeTypeExpression other).toList ++ rest' →
        expression.Same other ∧ rest = rest'
  | expression, other, rest, rest', hl, hl', hrest, hrest', h => by
      rw [write_eq, write_eq, String.toList_append, String.toList_append, List.append_assoc,
        List.append_assoc] at h
      obtain ⟨hopening, hbody⟩ := opening_append_inj h
      cases expression with
      | unit | integer | boolean =>
          cases other <;> simp [TypeExpression.opening] at hopening
          exact ⟨trivial, hbody⟩
      | string maximum | bytes maximum =>
          cases other <;> simp [TypeExpression.opening] at hopening
          rw [TypeExpression.body, TypeExpression.body, String.toList_append, String.toList_append,
            List.append_assoc, List.append_assoc] at hbody
          obtain ⟨hmaximum, hrests⟩ := number_close_inj hbody
          exact ⟨UInt32.toNat_inj.mp hmaximum, hrests⟩
      | named name span =>
          cases other <;> simp [TypeExpression.opening] at hopening
          exact name_append_inj hl hl' hrest.ends hrest'.ends hbody
      | record fields | variant fields =>
          cases other <;> simp [TypeExpression.opening] at hopening
          rw [TypeExpression.body, TypeExpression.body, String.toList_append, String.toList_append,
            List.append_assoc, List.append_assoc] at hbody
          exact writeMembers_inj hl.2 hl'.2 hbody
      | list element maximum =>
          cases other with
          | list element' maximum' =>
              rw [TypeExpression.body, TypeExpression.body] at hbody
              simp only [String.toList_append, List.append_assoc] at hbody
              obtain ⟨hsame, hbody⟩ := @writeTypeExpression_inj element element' _ _ hl hl'
                (closes_cons (by decide : ',' ∈ _)) (closes_cons (by decide : ',' ∈ _)) hbody
              obtain ⟨hmaximum, hrests⟩ := number_close_inj (List.cons.inj hbody).2
              exact ⟨⟨hsame, UInt16.toNat_inj.mp hmaximum⟩, hrests⟩
          | _ => simp [TypeExpression.opening] at hopening

theorem writeMembers_inj : ∀ {members others : List (String × TypeExpression)}
    {rest rest' : List Char}, LexicalAll members → LexicalAll others →
      (writeMembers members).toList ++ '\x7d' :: rest = (writeMembers others).toList ++ '\x7d' :: rest' →
        SameMembers members others ∧ rest = rest'
  | [], [], rest, rest', _, _, h => by
      exact ⟨rfl, (List.cons.inj h).2⟩
  | [], (name, member) :: others, rest, rest', _, hl', h => by
      -- no name begins with a brace
      rw [writeMembers_cons] at h
      have hnil := (word_append_inj (List.forall_mem_nil _) hl'.1.1.signs ends_brace ends_colon h).1
      exact absurd hnil.symm hl'.1.1.ne_nil
  | (name, member) :: members, [], rest, rest', hl, _, h => by
      rw [writeMembers_cons] at h
      have hnil := (word_append_inj hl.1.1.signs (List.forall_mem_nil _) ends_colon ends_brace h).1
      exact absurd hnil hl.1.1.ne_nil
  | (name, member) :: members, (name', member') :: others, rest, rest', hl, hl', h => by
      rw [writeMembers_cons, writeMembers_cons] at h
      obtain ⟨rfl, hmember⟩ := name_append_inj hl.1.1 hl'.1.1 ends_colon ends_colon h
      obtain ⟨hsame, hbehind⟩ := writeTypeExpression_inj hl.1.2 hl'.1.2
        (closes_cons (by decide : ';' ∈ _)) (closes_cons (by decide : ';' ∈ _)) (List.cons.inj hmember).2
      obtain ⟨hmembers, hrests⟩ := writeMembers_inj hl.2 hl'.2 (List.cons.inj hbehind).2
      exact ⟨⟨[], member', others, rfl, hsame, hmembers⟩, hrests⟩

end

end Hermas.Schema
