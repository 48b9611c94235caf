import Hermas.Workspace.Repeat

/-!
# What a workspace is bound to

In every state that processes on one workspace reach, with their calls in any order, some of them
failed and some processes killed: the manifest is never there without the image it pins, all who
ever got a binding got the same one, and a load never saw a workspace half made.
-/

namespace Hermas.Workspace

open Program (run_try_ok run_check_ok)

variable {paths : Paths} {processes : Processes}

/-! ## A workspace that was bound once -/

/-- A request of a process that nothing disturbs. -/
theorem reach_request (h : (Commons.system (rules paths)).Reach processes)
    (hidle : processes.live 1 = none) (source : Bytes) (request : Request)
    {result : Except WorkspaceResult Outcome} {files : Files}
    (hrun : Program.run (serve source 10) (request.task paths 1) processes.shared = (result, files)) :
    (Commons.system (rules paths)).Reach
        { processes with shared := files, ended := processes.ended ++ [(request, result)] } ∧
      (request, result) ∈ processes.ended ++ [(request, result)] := by
  have hadmits : (rules paths).admits request processes.shared := trivial
  have hreach := Commons.reach_alone (serve_acts source 10) h hidle hadmits
  have hcode : (rules paths).code 1 request = request.task paths 1 := rfl
  rw [hcode, hrun] at hreach
  exact ⟨hreach, List.mem_append_right _ (List.mem_singleton_self _)⟩

theorem run_outcome {α : Type} {source : Bytes} {chunk : Nat} {files files' : Files}
    {outcome : α → Outcome} {attempt : Attempt α} {a : α}
    (h : Program.run (serve source chunk) attempt.run files = (.ok a, files')) :
    Program.run (serve source chunk) (outcome <$> attempt).run files = (.ok (outcome a), files') := by
  rw [ExceptT.run_map, Program.run_map, h]
  rfl

theorem bound_once : ∃ processes, (Commons.system (rules shortPaths)).Reach processes ∧
    (.bind 7 none, .ok (.binding (bindingOf 7 oneAction.bytes))) ∈ processes.ended ∧
      processes.live 1 = none ∧ processes.shared.holds .image = some oneAction.bytes ∧
        processes.shared.Pinned (bindingOf 7 oneAction.bytes) := by
  have hfresh := reach_fresh shortPaths
  have hinv := ((rules_sound shortPaths).held hfresh).inv
  have hbinds : Binds (bindingOf 7 oneAction.bytes) oneAction.bytes :=
    binds_wanted (by decide) (validateImageBytes_of_valid oneAction.valid)
  obtain ⟨files', hrun, himage, hmanifest⟩ :=
    (@run_bind_unbound shortPaths _ 1 10 7 oneAction.bytes none (fun _ => Nat.succ_ne_zero 19)
      shortPaths_fit (fun _ => rfl) hbinds (fun _ h => absurd h (Option.not_mem_none _)) hinv rfl).1
      (.inr ⟨rfl, rfl, fun _ h => nomatch h⟩)
  obtain ⟨hreach, hended⟩ :=
    reach_request hfresh rfl oneAction.bytes (.bind 7 none) (run_outcome hrun)
  exact ⟨_, hreach, hended, rfl, himage, hmanifest, _, himage, hbinds⟩

/-! ## In every state -/

/-- **A manifest is never there without its image.** What is published as the manifest is one of a
binding, and what is published as the image is the valid image that it pins. -/
theorem manifest_pins (h : (Commons.system (rules paths)).Reach processes) :
    ∀ manifest, processes.shared.holds .manifest = some manifest →
      ∃ binding image, decodeManifest manifest = .ok binding ∧
        processes.shared.holds .image = some image ∧
          (Image.imageValidate image).toOption.isSome ∧
          Journal.imageFingerprint image = binding.imageFingerprint ∧
            image.length = binding.imageSize.toNat := by
  intro manifest hmanifest
  obtain ⟨binding, rfl, hbound⟩ := ((rules_sound paths).held h).inv.manifest manifest hmanifest
  obtain ⟨image, himage, hbinds⟩ := id hbound
  obtain ⟨⟨summary, hvalid⟩, -, hfingerprint⟩ := validateImageBytes_ok.mp hbinds.valid
  refine ⟨binding, image, decodeManifest_encode hbound.valid, himage, ?_, hfingerprint.symm,
    hbinds.size⟩
  rw [hvalid]
  rfl

theorem manifest_pins_oneAction : ∃ processes manifest binding,
    (Commons.system (rules shortPaths)).Reach processes ∧
      processes.shared.holds .manifest = some manifest ∧ decodeManifest manifest = .ok binding := by
  obtain ⟨processes, hreach, -, -, -, hpinned⟩ := bound_once
  obtain ⟨binding, image, hdecode, -⟩ := manifest_pins hreach _ hpinned.manifest
  exact ⟨processes, _, binding, hreach, hpinned.manifest, hdecode⟩

/-- **All who get a binding get the same one**, the one of the manifest: by binding the workspace or
by loading, before or after each other or at one time. A bind that ends well was for the workflow of
the binding, and its acceptor takes the published image. -/
theorem bindings_agree (h : (Commons.system (rules paths)).Reach processes)
    {request : Request} {binding : Binding}
    (hended : (request, .ok (.binding binding)) ∈ processes.ended) :
    processes.shared.holds .manifest = some (encodeManifest binding) ∧
      (∀ request' binding', (request', .ok (.binding binding')) ∈ processes.ended →
        binding' = binding) ∧
      ∀ workflowId acceptor, (.bind workflowId acceptor, .ok (.binding binding)) ∈ processes.ended →
        binding.workflowId = workflowId ∧ ∃ image, processes.shared.holds .image = some image ∧
          ∀ accepts ∈ acceptor, accepts image = true := by
  have hheld := (rules_sound paths).held h
  have hpinned : ∀ request binding, (request, .ok (.binding binding)) ∈ processes.ended →
      processes.shared.Pinned binding := by
    intro request binding hended
    have hright := hheld.ended _ _ hended
    cases request with
    | bind workflowId acceptor =>
        obtain ⟨_, houtcome, hbound⟩ := hright
        cases houtcome
        exact hbound.pinned
    | load =>
        obtain ⟨_, houtcome, hpinned⟩ := hright
        cases houtcome
        exact hpinned
    | contract fingerprint =>
        obtain ⟨_, _, houtcome, -⟩ := hright
        cases houtcome
  have hfirst := hpinned request binding hended
  refine ⟨hfirst.manifest, fun request' binding' hended' => ?_,
    fun workflowId acceptor hbind => ?_⟩
  · -- both are what the manifest says
    have hsecond := hpinned request' binding' hended'
    have hsame := hfirst.manifest.symm.trans hsecond.manifest
    have hdecoded := decodeManifest_encode hfirst.image.valid
    rw [Option.some.inj hsame, decodeManifest_encode hsecond.image.valid] at hdecoded
    exact Except.ok.inj hdecoded
  · obtain ⟨_, houtcome, hbound⟩ := hheld.ended _ _ hbind
    cases houtcome
    exact ⟨hbound.workflow, hbound.accepted⟩

/-- A load after the bind gets what was bound. -/
theorem bindings_agree_oneAction : ∃ processes binding,
    (Commons.system (rules shortPaths)).Reach processes ∧
      (.load, .ok (.binding binding)) ∈ processes.ended ∧
        binding = bindingOf 7 oneAction.bytes := by
  obtain ⟨processes, hreach, hbound, hidle, -, hpinned⟩ := bound_once
  have hload := @run_load oneAction.bytes 10 shortPaths _ (fun _ => Nat.succ_ne_zero 19) _ hpinned
  obtain ⟨hreach', hended⟩ := reach_request hreach hidle oneAction.bytes .load (run_outcome hload)
  exact ⟨_, _, hreach', hended,
    (bindings_agree hreach' (List.mem_append_left _ hbound)).2.1 _ _ hended⟩

/-- **All who look up an action find the same contract**, the one of the published image. -/
theorem contracts_agree (h : (Commons.system (rules paths)).Reach processes)
    {fingerprint : Bytes} {contract : Image.ResolvedContract}
    (hended : (.contract fingerprint, .ok (.contract contract)) ∈ processes.ended) :
    (∃ image, processes.shared.holds .image = some image ∧
      Image.findActionContract image fingerprint = .ok contract) ∧
      ∀ contract', (.contract fingerprint, .ok (.contract contract')) ∈ processes.ended →
        contract' = contract := by
  have hheld := (rules_sound paths).held h
  obtain ⟨_, image, houtcome, himage, hfound⟩ := hheld.ended _ _ hended
  cases houtcome
  refine ⟨⟨image, himage, hfound⟩, fun contract' hended' => ?_⟩
  obtain ⟨_, image', houtcome, himage', hfound'⟩ := hheld.ended _ _ hended'
  cases houtcome
  rw [himage] at himage'
  cases himage'
  rw [hfound] at hfound'
  exact (Except.ok.inj hfound').symm

theorem run_findActionContract {source : Bytes} {chunk : Nat} {files : Files}
    (hpaths : ∀ file, paths.length file ≠ 0) {binding : Binding} (hpinned : files.Pinned binding)
    {image : Bytes} (himage : files.holds .image = some image) {fingerprint : Bytes}
    {contract : Image.ResolvedContract}
    (hfound : Image.findActionContract image fingerprint = .ok contract) :
    Program.run (serve source chunk) (findActionContract paths fingerprint).run files =
      (.ok contract, files) := by
  have hbinds := hpinned.image.binds himage
  have hsize : image.length ≤ Image.maxSize := hbinds.size ▸ hpinned.image.valid.2.2.2
  have hload : Program.run (serve source chunk) (loadBoundImage paths).run files =
      (.ok image, files) := by
    refine (run_try_ok (run_load hpaths hpinned)).trans ?_
    refine (run_try_ok (run_readOwnedFile himage hsize)).trans ?_
    refine (run_check_ok hbinds.valid).trans ?_
    exact run_require ⟨hbinds.size, rfl⟩
  refine (run_try_ok hload).trans ?_
  rw [hfound]
  rfl

/-- The fingerprint of the only action. -/
def onlyFingerprint : Bytes := (oneAction.tables.contracts.map (·.fingerprint)).headD []

set_option maxRecDepth 20000 in
theorem contracts_agree_oneAction : ∃ processes contract,
    (Commons.system (rules shortPaths)).Reach processes ∧
      (.contract onlyFingerprint, .ok (.contract contract)) ∈ processes.ended ∧
        processes.shared.holds .image = some oneAction.bytes ∧
          Image.findActionContract oneAction.bytes onlyFingerprint = .ok contract := by
  have hsome : (Image.findActionContract oneAction.bytes onlyFingerprint).toOption.isSome = true := by
    decide +kernel
  obtain ⟨contract, hcontract⟩ := Option.isSome_iff_exists.mp hsome
  obtain ⟨processes, hreach, -, hidle, himage, hpinned⟩ := bound_once
  have hfind := @run_findActionContract shortPaths oneAction.bytes 10 _ (fun _ => Nat.succ_ne_zero 19) _
    hpinned _ himage _ _ (ok_of_toOption hcontract)
  obtain ⟨hreach', hended⟩ :=
    reach_request hreach hidle oneAction.bytes (.contract onlyFingerprint) (run_outcome hfind)
  obtain ⟨⟨image, himage', hfound⟩, -⟩ := contracts_agree hreach' hended
  cases himage.symm.trans himage'
  exact ⟨_, contract, hreach', hended, himage, hfound⟩

end Hermas.Workspace
