import Hermas.Image.Validate

/-!
# The registry of actions

One entry for each action contract of the image, with the connection of the app
that registered for it, if any. A descriptor is a number that names a connection.
-/

namespace Hermas.Daemon

/-- `hermas_daemon_action`; no connection is the descriptor -1. -/
structure RegisteredAction where
  appId : UInt16
  actionId : UInt16
  registeredActionId : UInt16
  connection : Option Nat := none
  contractFingerprint : Bytes
  deriving DecidableEq, Repr

abbrev Registry := List RegisteredAction

namespace Registry

/-- `hermas_daemon_registry_init`; a valid image has at most `HERMAS_DAEMON_MAX_ACTIONS`
contracts. -/
def init (image : Image) : Registry :=
  image.tables.contracts.map fun contract =>
    { appId := contract.appId
      actionId := contract.actionId
      registeredActionId := contract.actionId
      contractFingerprint := contract.fingerprint }

def matching (appId actionId : UInt16) (action : RegisteredAction) : Bool :=
  action.appId == appId && action.actionId == actionId

/-- `hermas_daemon_registry_find_action`: the connection and the action id it registered. -/
def findAction (registry : Registry) (appId actionId : UInt16) : Option (Nat × UInt16) :=
  if appId = 0 ∨ actionId = 0 then none
  else
    match registry.find? (matching appId actionId) with
    | none => none
    | some action => action.connection.map (·, action.registeredActionId)

/-- `drop_action` -/
def dropAction (registry : Registry) (appId actionId : UInt16) : Registry :=
  match registry.findIdx? (matching appId actionId) with
  | none => registry
  | some index => registry.modify index fun action => { action with connection := none }

/-- An app that acknowledged its registration is published. -/
def publish (registry : Registry) (index connection : Nat) (registeredActionId : UInt16) :
    Registry :=
  registry.modify index fun action =>
    if action.connection.isSome then action
    else { action with connection := some connection, registeredActionId }

/-! ## What dropping and publishing change -/

variable {registry : Registry} {appId actionId app act : UInt16}

/-- The first entry with the ids, as `find?` meets it. -/
theorem findAction_eq (registry : Registry) (appId actionId : UInt16) :
    registry.findAction appId actionId =
      if appId = 0 ∨ actionId = 0 then none
      else (registry.find? (matching appId actionId)).bind fun action =>
        action.connection.map (·, action.registeredActionId) := by
  unfold findAction
  split_ifs
  · rfl
  · cases registry.find? (matching appId actionId) <;> rfl

theorem matching_iff {action : RegisteredAction} :
    matching appId actionId action = true ↔ action.appId = appId ∧ action.actionId = actionId := by
  simp [matching]

theorem dropAction_cons (action : RegisteredAction) :
    dropAction (action :: registry) app act =
      if matching app act action then { action with connection := none } :: registry
      else action :: dropAction registry app act := by
  unfold dropAction
  rw [List.findIdx?_cons]
  cases matching app act action with
  | true => rfl
  | false =>
      cases registry.findIdx? (matching app act) <;> rfl

theorem find_dropAction (registry : Registry) :
    (dropAction registry app act).find? (matching appId actionId) =
      (registry.find? (matching appId actionId)).map fun action =>
        if appId = app ∧ actionId = act then { action with connection := none } else action := by
  induction registry with
  | nil => rfl
  | cons action registry ih =>
      rw [dropAction_cons]
      by_cases hdrop : matching app act action = true
      · rw [if_pos hdrop]
        obtain ⟨happ, hact⟩ := matching_iff.mp hdrop
        by_cases hfind : matching appId actionId action = true
        · obtain ⟨happ', hact'⟩ := matching_iff.mp hfind
          rw [List.find?_cons_of_pos (by simpa [matching] using hfind),
            List.find?_cons_of_pos hfind, Option.map_some,
            if_pos ⟨happ'.symm.trans happ, hact'.symm.trans hact⟩]
        · have hne : ¬ (appId = app ∧ actionId = act) := by
            rintro ⟨rfl, rfl⟩
            exact hfind hdrop
          rw [List.find?_cons_of_neg (by simpa [matching] using hfind),
            List.find?_cons_of_neg hfind]
          simp only [if_neg hne, Option.map_id']
      · rw [if_neg hdrop]
        by_cases hfind : matching appId actionId action = true
        · have hne : ¬ (appId = app ∧ actionId = act) := by
            rintro ⟨rfl, rfl⟩
            exact hdrop hfind
          rw [List.find?_cons_of_pos hfind, List.find?_cons_of_pos hfind, Option.map_some,
            if_neg hne]
        · rw [List.find?_cons_of_neg hfind, List.find?_cons_of_neg hfind, ih]

/-- A connection that is dropped serves its action no more, and every other action as before. -/
theorem findAction_dropAction (registry : Registry) :
    (dropAction registry app act).findAction appId actionId =
      if appId = app ∧ actionId = act then none else registry.findAction appId actionId := by
  rw [findAction_eq, findAction_eq, find_dropAction]
  by_cases hsame : appId = app ∧ actionId = act
  · simp only [if_pos hsame]
    cases registry.find? (matching appId actionId) <;> simp
  · simp only [if_neg hsame, Option.map_id']

theorem publish_cons (action : RegisteredAction) (index connection : Nat)
    (registeredActionId : UInt16) :
    publish (action :: registry) (index + 1) connection registeredActionId =
      action :: publish registry index connection registeredActionId := rfl

/-- An app that is published serves its action where it had no connection. -/
theorem findAction_publish (registry : Registry) (index connection : Nat)
    (registeredActionId : UInt16) :
    (publish registry index connection registeredActionId).findAction appId actionId =
        registry.findAction appId actionId ∨
      ∃ action, registry[index]? = some action ∧ action.connection = none ∧
        action.appId = appId ∧ action.actionId = actionId ∧
        registry.findAction appId actionId = none := by
  have hfind : ∀ (registry : Registry) (index : Nat),
      (publish registry index connection registeredActionId).find? (matching appId actionId) =
          registry.find? (matching appId actionId) ∨
        ∃ action, registry[index]? = some action ∧ action.connection = none ∧
          action.appId = appId ∧ action.actionId = actionId ∧
          registry.find? (matching appId actionId) = some action := by
    intro registry
    induction registry with
    | nil => intro index; exact .inl (by cases index <;> rfl)
    | cons action registry ih =>
        intro index
        cases index with
        | zero =>
            by_cases hmatch : matching appId actionId action = true
            · cases hconnection : action.connection with
              | none =>
                  obtain ⟨happ, hact⟩ := matching_iff.mp hmatch
                  exact .inr ⟨action, rfl, hconnection, happ, hact,
                    List.find?_cons_of_pos hmatch⟩
              | some old =>
                  refine .inl ?_
                  simp only [publish, List.modify_zero_cons, hconnection, Option.isSome_some,
                    if_true]
            · refine .inl ?_
              rw [List.find?_cons_of_neg hmatch]
              simp only [publish, List.modify_zero_cons]
              rw [List.find?_cons_of_neg]
              split_ifs
              · exact hmatch
              · simpa [matching] using hmatch
        | succ index =>
            rw [publish_cons]
            by_cases hmatch : matching appId actionId action = true
            · exact .inl (by rw [List.find?_cons_of_pos hmatch, List.find?_cons_of_pos hmatch])
            · rw [List.find?_cons_of_neg hmatch, List.find?_cons_of_neg hmatch]
              exact ih index
  rw [findAction_eq, findAction_eq]
  rcases hfind registry index with hsame | ⟨action, hentry, hnone, happ, hact, hfound⟩
  · exact .inl (by rw [hsame])
  · refine .inr ⟨action, hentry, hnone, happ, hact, ?_⟩
    rw [hfound]
    simp [hnone]

end Registry

end Hermas.Daemon
