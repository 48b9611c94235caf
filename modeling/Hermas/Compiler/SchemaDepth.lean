import Hermas.Compiler.SchemaNames
import Hermas.Image.Representation

/-!
# When the resolution is lawful

Types should be resolved alike under all names, and to representations that an image holds.
The resolution counts the levels that it goes down and not those of what it knows, so the
names say which types it knows when it meets another: with the smallest name in front a
type opens all that is below it, and with the names from the leaves up none opens another.
The types are therefore resolved lawfully exactly if each opens within the levels from nothing
and stands for no deeper tree (`lawful_iff_shallow`).
-/

namespace Hermas.Schema

open Catalog (Representation)

/-- The records that a descriptor may have one below the other: `validate_representation` goes
from depth 0 to depth 64. -/
def descriptorLevels : Nat := 65

/-- A type and the same type under its new name are resolved alike, or no types are in either
schema. -/
def Agree (ρ : Renaming) : Except SchemaDiagnostic (List (String × Representation)) →
    Except SchemaDiagnostic (List (String × Representation)) → Prop
  | .ok resolved, .ok renamed => ∀ name, renamed.lookup (ρ.name name) = resolved.lookup name
  | .error _, .error _ => True
  | _, _ => False

/-- What the resolution is for: only well-formed types are resolved, alike under all names, and
to what an image holds. -/
structure Lawful (file : String) (types : List (String × TypeDeclaration)) : Prop where
  wellFormed : ∀ resolved, resolveTypes file types = .ok resolved → WellFormed types
  stable : ∀ ρ, Agree ρ (resolveTypes file types) (resolveTypes file (renameTypes ρ types))
  bounded : ∀ resolved, resolveTypes file types = .ok resolved →
    ∀ entry ∈ resolved, entry.2.nameless.depth ≤ descriptorLevels

/-- No type is too deep, with names counted as levels and every type opened once, or with names
not counted and every type opened wherever it is named. -/
structure Shallow (types : List (String × TypeDeclaration)) : Prop where
  opens : ∀ name declaration, types.lookup name = some declaration →
    ∀ depth known, Opens types ∅ [declaration.expression] depth known →
      depth ≤ maxRepresentationDepth + 1
  nests : ∀ name declaration, types.lookup name = some declaration →
    ∀ representation, Denotes types declaration.expression representation →
      representation.nameless.depth ≤ descriptorLevels

variable {file : String} {types : List (String × TypeDeclaration)}
  {resolved : List (String × Representation)}

theorem closed_empty : Closed types ∅ :=
  fun _ hmem => absurd hmem (Set.notMem_empty _)

/-- How deep expressions open from nothing is determined. -/
theorem Opens.depth_unique {expressions : List TypeExpression} {depth depth' : Nat}
    {known known' : Set String} (h : Opens types ∅ expressions depth known)
    (h' : Opens types ∅ expressions depth' known') : depth = depth' :=
  Nat.le_antisymm (h'.compare h subset_rfl closed_empty).1 (h.compare h' subset_rfl closed_empty).1

/-! ## Types that are resolved -/

section Resolved

variable (hsorted : Assoc.Sorted types) (hwell : WellFormed types)
include hsorted hwell

/-- A type opens whatever is known. -/
theorem opens_entry {entry : String × TypeDeclaration} (hentry : entry ∈ types) (known : Set String) :
    ∃ depth known', Opens types known [entry.2.expression] depth known' :=
  hwell.opens (fun _ hname => hwell.declared entry.1 _ ⟨entry.2, hsorted.lookup hentry, hname⟩) known

/-- **Types that open within the levels from nothing are resolved.** -/
theorem resolveTypes_of_opens (hopens : ∀ name declaration, types.lookup name = some declaration →
    ∃ depth known, depth ≤ maxRepresentationDepth + 1 ∧
      Opens types ∅ [declaration.expression] depth known) :
    ∃ resolved, resolveTypes file types = .ok resolved := by
  refine resolveTypes_opens hsorted hwell fun before entry after heq known hclosed _ => ?_
  have hentry : entry ∈ types := by simp [heq]
  obtain ⟨depth, known', hwithin, h⟩ := hopens entry.1 entry.2 (hsorted.lookup hentry)
  obtain ⟨depth', known'', h'⟩ := opens_entry hsorted hwell hentry known
  have hless := (h.compare h' (Set.empty_subset _) hclosed).1
  exact ⟨depth', known'', hless.trans hwithin, h'⟩

/-- **Types that stand behind those that they name are resolved**, however deep they are. -/
theorem resolveTypes_of_order
    (hlevels : ∀ entry ∈ types, entry.2.expression.levels ≤ maxRepresentationDepth + 1)
    (horder : ∀ before entry after, types = before ++ entry :: after →
      ∀ name ∈ entry.2.expression.names, ∃ earlier ∈ before, earlier.1 = name) :
    ∃ resolved, resolveTypes file types = .ok resolved := by
  refine resolveTypes_opens hsorted hwell fun before entry after heq known _ hbefore => ?_
  have hentry : entry ∈ types := by simp [heq]
  obtain ⟨depth, known', h⟩ := opens_entry hsorted hwell hentry known
  refine ⟨depth, known', h.le_levels ?_ ?_, h⟩
  · exact List.forall_mem_singleton.mpr (hlevels entry hentry)
  · rw [List.forall_mem_singleton]
    intro name hname
    obtain ⟨earlier, hearlier, rfl⟩ := horder before entry after heq name hname
    exact hbefore earlier hearlier

end Resolved

/-- **The first type is opened from nothing.** -/
theorem opens_of_resolveTypes {entry : String × TypeDeclaration}
    {rest : List (String × TypeDeclaration)} (heq : types = entry :: rest)
    (h : resolveTypes file types = .ok resolved) :
    ∃ depth known, depth ≤ maxRepresentationDepth + 1 ∧
      Opens types ∅ [entry.2.expression] depth known := by
  subst heq
  rw [resolveTypes, resolveTypesFrom, if_neg (by simp)] at h
  simp only [bind_ok] at h
  obtain ⟨⟨representation, between⟩, hexpression, -⟩ := h
  obtain ⟨depth, hdepth, hopens⟩ := (resolveExpression_sound hexpression sound_nil).1.opens
  rw [knownOf_nil] at hopens
  exact ⟨depth, _, hdepth, hopens⟩

/-! ## Names for every order -/

/-- Names that lead from the leaves up resolve well-formed types. -/
theorem exists_resolved_byRank (hwell : WellFormed types)
    (hlevels : ∀ entry ∈ types, entry.2.expression.levels ≤ maxRepresentationDepth + 1) :
    ∃ rank resolved, resolveTypes file (renameTypes (.byRank rank) types) = .ok resolved := by
  obtain ⟨rank, hrank⟩ := exists_rank (types.map Prod.fst)
    (fun a b hrefers => Assoc.isSome_lookup.mp (hwell.declared a b hrefers)) hwell.acyclic
  refine ⟨rank, resolveTypes_of_order renameTypes_sorted (wellFormed_rename.mpr hwell) ?_ ?_⟩
  · intro entry hentry
    obtain ⟨original, horiginal, rfl⟩ := mem_renameTypes hentry
    rw [show (original.2.rename (.byRank rank)).expression = original.2.expression.rename _ from rfl,
      levels_rename]
    exact hlevels original horiginal
  · intro before entry after heq name hname
    have hentry : entry ∈ renameTypes (.byRank rank) types := by simp [heq]
    -- the type that is named has the smaller name
    have hlookup := renameTypes_sorted.lookup hentry
    obtain ⟨old, oldOther, hold, rfl, hrefers⟩ := exists_of_refers_rename ⟨entry.2, hlookup, hname⟩
    have hlt : byRank rank oldOther < entry.1 := hold ▸ byRank_lt (hrank _ _ hrefers)
    have hdeclared : (Renaming.byRank rank).name oldOther ∈
        (renameTypes (.byRank rank) types).map Prod.fst := by
      rw [← Assoc.isSome_lookup, lookup_renameTypes, Option.isSome_map]
      exact hwell.declared _ _ hrefers
    have hsorted : Assoc.Sorted (before ++ entry :: after) := heq ▸ renameTypes_sorted
    rw [heq, List.map_append, List.mem_append] at hdeclared
    rcases hdeclared with hbefore | hbehind
    · obtain ⟨earlier, hearlier, hname⟩ := List.mem_map.mp hbefore
      exact ⟨earlier, hearlier, hname⟩
    · -- behind the entry the names are not smaller
      rw [Assoc.Sorted, List.map_append, List.pairwise_append] at hsorted
      rcases List.mem_cons.mp hbehind with hsame | hbehind
      · exact absurd hlt (by rw [← hsame]; exact lt_irrefl _)
      · have hgt := (List.pairwise_cons.mp hsorted.2.1).1 _ hbehind
        exact absurd hlt (lt_asymm hgt)

/-- Under names among which that of a type is the smallest, it is opened from nothing. -/
theorem opens_of_first {name : String} {declaration : TypeDeclaration}
    (hdeclaration : types.lookup name = some declaration) {ρ : Renaming}
    (hfirst : ∀ other, other ≠ name → ρ.name name < ρ.name other)
    (h : resolveTypes file (renameTypes ρ types) = .ok resolved) {depth : Nat} {known : Set String}
    (hopens : Opens types ∅ [declaration.expression] depth known) :
    depth ≤ maxRepresentationDepth + 1 := by
  have hlookup : (renameTypes ρ types).lookup (ρ.name name) = some (declaration.rename ρ) := by
    rw [lookup_renameTypes, hdeclaration]
    rfl
  have hmem := Assoc.mem_of_lookup hlookup
  obtain ⟨entry, rest, heq⟩ := List.exists_cons_of_ne_nil (List.ne_nil_of_mem hmem)
  have hsorted : Assoc.Sorted (entry :: rest) := heq ▸ renameTypes_sorted
  have hentry : entry = (ρ.name name, declaration.rename ρ) := by
    rw [heq] at hmem
    rcases List.mem_cons.mp hmem with hhead | htail
    · exact hhead.symm
    · -- in front of the smallest name there is none
      have hlt := (List.pairwise_cons.mp hsorted).1 _ (List.mem_map_of_mem htail)
      obtain ⟨original, -, rfl⟩ := mem_renameTypes (heq ▸ List.mem_cons_self : entry ∈ renameTypes ρ types)
      by_cases hname : original.1 = name
      · exact absurd hlt (by simp [hname])
      · exact absurd hlt (lt_asymm (hfirst _ hname))
  obtain ⟨depth', known', hwithin, hopens'⟩ := opens_of_resolveTypes heq h
  rw [hentry] at hopens'
  have hrenamed := hopens.rename (ρ := ρ)
  rw [Set.image_empty] at hrenamed
  rw [hrenamed.depth_unique hopens']
  exact hwithin

/-! ## The law -/

/-- Two resolutions that end well agree. -/
theorem agree_ok (hsorted : Assoc.Sorted types) {ρ : Renaming} {renamed : List (String × Representation)}
    (h : resolveTypes file types = .ok resolved)
    (h' : resolveTypes file (renameTypes ρ types) = .ok renamed) (name : String) :
    renamed.lookup (ρ.name name) = resolved.lookup name := by
  cases hlookup : types.lookup name with
  | some declaration =>
      have hrenamed : (renameTypes ρ types).lookup (ρ.name name) = some (declaration.rename ρ) := by
        rw [lookup_renameTypes, hlookup]
        rfl
      obtain ⟨representation, hfound, hdenotes⟩ := exists_of_resolveTypes hsorted h hlookup
      obtain ⟨representation', hfound', hdenotes'⟩ :=
        exists_of_resolveTypes renameTypes_sorted h' hrenamed
      rw [hfound, hfound', hdenotes'.unique (hdenotes.rename (ρ := ρ))]
  | none =>
      -- what is not declared is not resolved
      have hnone : ∀ {types resolved} {name : String}, Sound types resolved →
          types.lookup name = none → resolved.lookup name = none := by
        intro types resolved name hsound hundeclared
        cases hfound : resolved.lookup name with
        | none => rfl
        | some representation =>
            obtain ⟨declaration, hdeclaration, -⟩ := hsound.denotes name representation hfound
            rw [hundeclared] at hdeclaration
            cases hdeclaration
      rw [hnone (resolveTypes_sound hsorted h).1 hlookup,
        hnone (resolveTypes_sound renameTypes_sorted h').1 (by rw [lookup_renameTypes, hlookup]; rfl)]

/-- What agrees with an end that is good is good. -/
theorem Agree.exists_ok {ρ : Renaming}
    {result result' : Except SchemaDiagnostic (List (String × Representation))}
    (h : Agree ρ result result') : (∃ resolved, result = .ok resolved) ↔
      ∃ renamed, result' = .ok renamed := by
  cases result <;> cases result' <;> simp_all [Agree]

/-- Shallow types are resolved lawfully. -/
theorem lawful_of_shallow (hsorted : Assoc.Sorted types) (h : WellFormed types → Shallow types) :
    Lawful file types where
  wellFormed resolved hok := wellFormed_of_resolveTypes hsorted hok
  stable ρ := by
    by_cases hwell : WellFormed types
    · have hopens : ∀ name declaration, types.lookup name = some declaration →
          ∃ depth known, depth ≤ maxRepresentationDepth + 1 ∧
            Opens types ∅ [declaration.expression] depth known := by
        intro name declaration hdeclaration
        obtain ⟨depth, known, hopens⟩ :=
          opens_entry hsorted hwell (Assoc.mem_of_lookup hdeclaration) ∅
        exact ⟨depth, known, (h hwell).opens name declaration hdeclaration depth known hopens, hopens⟩
      obtain ⟨resolved, hok⟩ : ∃ resolved, resolveTypes file types = .ok resolved :=
        resolveTypes_of_opens hsorted hwell hopens
      obtain ⟨renamed, hok'⟩ : ∃ renamed, resolveTypes file (renameTypes ρ types) = .ok renamed :=
        resolveTypes_of_opens renameTypes_sorted (wellFormed_rename.mpr hwell)
          fun name declaration hdeclaration => by
          obtain ⟨old, rfl, original, horiginal, rfl⟩ := exists_of_lookup_renameTypes hdeclaration
          obtain ⟨depth, known, hwithin, hopens⟩ := hopens old original horiginal
          have hrenamed := hopens.rename (ρ := ρ)
          rw [Set.image_empty] at hrenamed
          exact ⟨depth, _, hwithin, hrenamed⟩
      rw [hok, hok']
      exact agree_ok hsorted hok hok'
    · cases hok : resolveTypes file types with
      | ok resolved => exact absurd (wellFormed_of_resolveTypes hsorted hok) hwell
      | error e =>
          cases hok' : resolveTypes file (renameTypes ρ types) with
          | error e' => trivial
          | ok renamed =>
              exact absurd (wellFormed_rename.mp (wellFormed_of_resolveTypes renameTypes_sorted hok')) hwell
  bounded resolved hok entry hentry := by
    have hsound := (resolveTypes_sound hsorted hok).1
    obtain ⟨declaration, hdeclaration, hdenotes⟩ :=
      hsound.denotes entry.1 entry.2 (hsound.sorted.lookup hentry)
    exact (h (wellFormed_of_resolveTypes hsorted hok)).nests entry.1 declaration hdeclaration _ hdenotes

/-- Types that are resolved lawfully are shallow. -/
theorem Lawful.shallow (h : Lawful file types) (hsorted : Assoc.Sorted types)
    (hlevels : ∀ entry ∈ types, entry.2.expression.levels ≤ maxRepresentationDepth + 1)
    (hwell : WellFormed types) : Shallow types := by
  -- as some names resolve the types, all do
  obtain ⟨rank, renamed, hrenamed⟩ :
      ∃ rank renamed, resolveTypes file (renameTypes (.byRank rank) types) = .ok renamed :=
    exists_resolved_byRank hwell hlevels
  obtain ⟨resolved, hok⟩ := (h.stable (.byRank rank)).exists_ok.mpr ⟨renamed, hrenamed⟩
  constructor
  · intro name declaration hdeclaration depth known hopens
    let front (other : String) : Nat := if other = name then 0 else 1
    obtain ⟨renamed', hrenamed'⟩ := (h.stable (.byRank front)).exists_ok.mp ⟨resolved, hok⟩
    refine opens_of_first hdeclaration (fun other hother => ?_) hrenamed' hopens
    exact byRank_lt (by simp [front, hother])
  · intro name declaration hdeclaration representation hdenotes
    obtain ⟨representation', hfound, hdenotes'⟩ := exists_of_resolveTypes hsorted hok hdeclaration
    rw [hdenotes.unique hdenotes']
    exact h.bounded resolved hok _ (Assoc.mem_of_lookup hfound)

/-- **The types of a schema are resolved lawfully exactly if they are shallow**, as far as they are
well formed at all. -/
theorem lawful_iff_shallow {source : Bytes} {parsed : ParsedSchema}
    (h : parse file source = .ok parsed) :
    Lawful file parsed.types ↔ (WellFormed parsed.types → Shallow parsed.types) := by
  have hlexical := parse_lexical h
  refine ⟨fun hlawful => ?_, lawful_of_shallow hlexical.typesSorted⟩
  exact hlawful.shallow hlexical.typesSorted fun entry hentry => (hlexical.types entry hentry).2.2

/-! ## Two examples -/

/-- A list type over so many others -/
def nestedLists (levels : Nat) (element : String) : Bytes :=
  (List.replicate levels (bytesOf "List<")).flatten ++ bytesOf element ++
    (List.replicate levels (bytesOf " 1>")).flatten

/-- Lists of lists, forty deep, and forty more around them. -/
def listsSource : Bytes :=
  bytesOf "app lists type A = " ++ nestedLists 40 "Unit" ++ bytesOf " type B = " ++
    nestedLists 40 "A" ++
    bytesOf " action Run { input A success A error A compensation none }"

def noteSource : Bytes :=
  bytesOf "app notes type Note = record { text : String<80> } type Notes = List<Note 16> " ++
    bytesOf "action Add { input Note success Notes error Note compensation none }"

theorem lawful_iff_shallow_notes : ∃ parsed, parse "notes.hschema" noteSource = .ok parsed ∧
    (Lawful "notes.hschema" parsed.types ↔ (WellFormed parsed.types → Shallow parsed.types)) := by
  have hok : (parse "notes.hschema" noteSource).toOption.isSome = true := by decide +kernel
  cases hparse : parse "notes.hschema" noteSource with
  | error e =>
      rw [hparse] at hok
      cases hok
  | ok parsed => exact ⟨parsed, rfl, lawful_iff_shallow hparse⟩

/-- The resolution accepts eighty levels of lists. -/
theorem lists_unlawful : ¬ ∀ parsed, parse "lists.hschema" listsSource = .ok parsed →
    Lawful "lists.hschema" parsed.types := by
  have hdeep : ((parse "lists.hschema" listsSource).toOption.bind fun parsed =>
      (resolveTypes "lists.hschema" parsed.types).toOption.map fun resolved =>
        resolved.all fun entry => entry.2.nameless.depth ≤ descriptorLevels) = some false := by
    decide +kernel
  intro h
  cases hparse : parse "lists.hschema" listsSource with
  | error e =>
      rw [hparse] at hdeep
      cases hdeep
  | ok parsed =>
      rw [hparse] at hdeep
      cases hresolve : resolveTypes "lists.hschema" parsed.types with
      | error e => simp [Except.toOption, hresolve] at hdeep
      | ok resolved =>
          have hall := (h parsed hparse).bounded resolved hresolve
          have hsome : (resolved.all fun entry =>
              entry.2.nameless.depth ≤ descriptorLevels) = true := by
            rw [List.all_eq_true]
            exact fun entry hentry => decide_eq_true (hall entry hentry)
          simp [Except.toOption, hresolve] at hdeep
          obtain ⟨a, b, hentry, hlt⟩ := hdeep
          exact absurd (hall (a, b) hentry) (by simpa using hlt)

end Hermas.Schema
