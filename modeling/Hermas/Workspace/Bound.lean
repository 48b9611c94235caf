import Hermas.Workspace.Terms

/-!
# Every binding is the same

What the programs of a workspace come to under the terms of their process: what was read is
what is published, and what was written is published with these bytes. Put together, the
manifest is never there without the image it pins, and all processes that ever get a binding
get the same one, in whatever order their calls come and whichever of them are killed.
-/

namespace Hermas.Workspace

open Program (Secure Safe Ends request Terms)

section Programs

variable {pid : Nat} {file : File} {files : Files} {paths : Paths}

/-! ## Reading -/

theorem secure_readLoop {files : Files} {inode expected : Nat} {content bytes : Bytes}
    (hexpected : expected = content.length)
    (hentry : files.entries (.managed file) = some inode)
    (hcontents : files.contents inode = content) (hsofar : bytes <+: content) :
    Secure acts (terms pid) (fun result _ => ∀ all, result = some all → all = content)
      (readLoop (.inode inode) expected bytes) files := by
  rw [readLoop]
  split
  · intro files₁ hrely hinv answer files₂ hacts
    obtain ⟨rfl, hread⟩ := hacts
    obtain ⟨hentry₁, hcontents₁⟩ := hrely.1 file inode hentry
    have hcontents₁ := hcontents₁.trans hcontents
    refine ⟨guar_refl pid files₂, hinv, ?_⟩
    match answer, hread with
    | none, _ => exact fun _ _ _ all hall => nomatch hall
    | some ⟨[], _⟩, _ => exact fun _ _ _ all hall => nomatch hall
    | some ⟨byte :: more, hcount⟩, hread =>
        -- what comes next in the file
        have hmore := (hread _ rfl).1
        rw [hcontents₁] at hmore
        obtain ⟨rest, rfl⟩ := hsofar
        rw [List.drop_left] at hmore
        exact secure_readLoop hexpected hentry₁ hcontents₁
          ((List.prefix_append_right_inj bytes).mpr hmore)
  · rename_i hend
    refine fun _ _ _ all hall => ?_
    cases hall
    exact hsofar.eq_of_length_le (by omega)
termination_by expected - bytes.length
decreasing_by
  rw [List.length_append, List.length_cons]
  omega

theorem secure_readLoop_source {files : Files} {expected : Nat} {bytes : Bytes} :
    Secure acts (terms pid) (fun _ _ => True) (readLoop .source expected bytes) files := by
  rw [readLoop]
  split
  · intro files₁ hrely hinv answer files₂ hacts
    obtain rfl : files₂ = files₁ := hacts
    refine ⟨guar_refl pid files₂, hinv, ?_⟩
    match answer with
    | none => exact fun _ _ _ => trivial
    | some ⟨[], _⟩ => exact fun _ _ _ => trivial
    | some ⟨byte :: more, hcount⟩ =>
        exact secure_readLoop_source 
  · exact fun _ _ _ => trivial
termination_by expected - bytes.length
decreasing_by
  rw [List.length_append, List.length_cons]
  omega

/-- The errors of reading a file. -/
def readErrors : List WorkspaceResult := [.notInitialized, .unsafeDirectory, .ioError]

theorem secure_readOwnedFile (pid : Nat) (file : File) (capacity : Nat) (files : Files) :
    Secure acts (terms pid) (Ends (fun bytes files => files.holds file = some bytes) (· ∈ readErrors))
      (readOwnedFile file capacity) files := by
  have hfails : ∀ {files : Files} {reason : WorkspaceResult}, reason ∈ readErrors →
      Secure acts (terms pid)
        (Ends (fun bytes files => files.holds file = some bytes) (· ∈ readErrors))
        (pure (.error reason)) files := fun hreason _ _ _ => hreason
  refine Secure.look (fun _ _ _ h => h.1) (guar_refl pid) fun files₁ _ _ opened hopened => ?_
  cases opened with
  | absent => exact hfails (by decide)
  | failed => exact hfails (by decide)
  | inode inode =>
    have hentry : files₁.entries (.managed file) = some inode := by
      rcases hopened.2 with hfailed | ⟨habsent, -⟩ | ⟨inode', hinode, hentry⟩
      · cases hfailed
      · cases habsent
      · cases hinode
        exact hentry
    refine Secure.look (fun _ _ _ h => h.1) (guar_refl pid) fun files₂ hrely₂ _ status hstatus => ?_
    obtain ⟨hentry₂, -⟩ := hrely₂.1 file inode hentry
    split
    · exact Secure.look (fun _ _ _ h => h) (guar_refl pid) fun _ _ _ _ _ => hfails (by decide)
    · rename_i expected hsize
      -- the size is the one of the published file, which stays
      have hexpected : expected = (files₂.contents inode).length := by
        rcases hstatus.2 with rfl | rfl
        · cases hsize
        · rw [Status.ownedSize] at hsize
          split at hsize
          · cases hsize
            rfl
          · cases hsize
      refine Secure.bind (Secure.frame (P := fun files => files.holds file =
        some (files₂.contents inode)) (secure_readLoop hexpected hentry₂ rfl List.nil_prefix)
        (fun _ _ h => holds_lasts pid file _ _ _ h) (by rw [Files.holds, hentry₂]; rfl))
        fun result files₃ _ hresult => ?_
      obtain ⟨hcontent, hholds⟩ := hresult
      cases result with
      | none =>
        exact Secure.look (fun _ _ _ h => h) (guar_refl pid) fun _ _ _ _ _ => hfails (by decide)
      | some bytes =>
        obtain rfl := hcontent bytes rfl
        refine Secure.look (fun _ _ _ h => h.1) (guar_refl pid) fun files₄ hrely₄ _ trailing _ => ?_
        refine Secure.look (fun _ _ _ h => h) (guar_refl pid) fun files₅ hrely₅ _ closed _ => ?_
        split
        · exact fun _ hrely _ => hrely.1.holds (hrely₅.1.holds (hrely₄.1.holds hholds))
        · exact hfails (by decide)

theorem secure_readSourceImage (pid capacity : Nat) (files : Files) :
    Secure acts (terms pid) (Ends (fun _ _ => True) (fun _ => True)) (readSourceImage capacity)
      files := by
  have hends : ∀ {files : Files} {result : Except WorkspaceResult Bytes},
      Secure acts (terms pid) (Ends (fun _ _ => True) (fun _ => True)) (pure result) files := by
    intro files result _ _ _
    cases result with
    | ok _ => trivial
    | error _ => trivial
  refine Secure.look (fun _ _ _ h => h) (guar_refl pid) fun _ _ _ opened _ => ?_
  split
  · exact hends
  · refine Secure.look (fun _ _ _ h => h) (guar_refl pid) fun _ _ _ status _ => ?_
    split
    · exact Secure.look (fun _ _ _ h => h) (guar_refl pid) fun _ _ _ _ _ => hends
    · refine Secure.bind secure_readLoop_source fun result _ _ _ => ?_
      match result with
      | none => exact Secure.look (fun _ _ _ h => h) (guar_refl pid) fun _ _ _ _ _ => hends
      | some bytes =>
        refine Secure.look (fun _ _ _ h => h) (guar_refl pid) fun _ _ _ closed _ => ?_
        split
        · exact hends
        · exact hends

/-! ## Writing -/

theorem secure_writeLoop {files : Files} {inode : Nat} {done : Bytes} (rest : Bytes)
    (hdraft : Draft pid file inode done files) :
    Secure acts (terms pid) (fun written files => written = true →
      Draft pid file inode (done ++ rest) files) (writeLoop inode done.length rest) files := by
  rw [writeLoop]
  split
  · rename_i hnil
    subst hnil
    rw [List.append_nil]
    exact fun _ hrely _ _ => hdraft.wait hrely
  · intro files₁ hrely hinv answer files₂ hacts
    have hdraft₁ := hdraft.wait hrely
    have hfails : Secure acts (terms pid) (fun written files => written = true →
        Draft pid file inode (done ++ rest) files) (.done false) files₂ :=
      fun _ _ _ hwritten => nomatch hwritten
    rcases hacts with ⟨rfl, rfl⟩ | ⟨⟨count, hcount⟩, rfl, rfl⟩
    · exact ⟨guar_refl pid _, hinv, hfails⟩
    · obtain ⟨hguar, hinv₂, hdraft₂⟩ := write_step (rest.take count) hinv hdraft₁
      refine ⟨hguar, hinv₂, ?_⟩
      match count, hcount with
      | 0, _ => exact hfails
      | count + 1, hcount =>
        have hnext := secure_writeLoop (rest.drop (count + 1)) hdraft₂
        rw [List.append_assoc, List.take_append_drop, List.length_append, List.length_take,
          Nat.min_eq_left hcount] at hnext
        exact hnext
termination_by rest.length
decreasing_by
  rw [List.length_drop]
  omega

theorem secure_syncAndClose {inode : Nat} {bytes : Bytes}
    (hdraft : Draft pid file inode bytes files) :
    Secure acts (terms pid) (fun _ files => Draft pid file inode bytes files)
      (syncAndClose inode) files := by
  refine Secure.look (fun _ _ _ h => h) (guar_refl pid) fun files₁ hrely₁ _ synced _ => ?_
  have hdraft₁ := hdraft.wait hrely₁
  split
  · refine Secure.last (fun _ _ _ h => h) (guar_refl pid) fun files₂ hrely₂ _ closed _ => ?_
    exact fun _ hrely _ => (hdraft₁.wait hrely₂).wait hrely
  · exact fun _ hrely _ => hdraft₁.wait hrely

theorem secure_unlink {α : Type} {post : α → Files → Prop} {next : Bool → Task α}
    (h : ∀ removed files', Kept files files' → Secure acts (terms pid) post (next removed) files') :
    Secure acts (terms pid) post (request (Call.unlink file pid) >>= next) files := by
  intro files₁ hrely hinv removed files₂ hacts
  rcases hacts with ⟨rfl, rfl⟩ | ⟨rfl, -, rfl⟩
  · exact ⟨guar_refl pid _, hinv, h _ _ hrely.1⟩
  · obtain ⟨hguar, hinv₂⟩ := unlink_step pid file hinv
    exact ⟨hguar, hinv₂, h _ _ (hrely.1.trans hguar.1)⟩

variable (file) in
theorem secure_writeNewFile {bytes : Bytes} (hfits : files.Fits bytes file) :
    Secure acts (terms pid) (Ends (fun _ files => files.holds file = some bytes) (fun _ => True))
      (writeNewFile paths pid file bytes) files := by
  have hfails : ∀ {files : Files} {reason : WorkspaceResult},
      Secure acts (terms pid) (Ends (fun (_ : Unit) files => files.holds file = some bytes) (fun _ => True))
        (pure (.error reason)) files := fun _ _ _ => trivial
  have hunlink : ∀ {files : Files} {reason : WorkspaceResult},
      Secure acts (terms pid) (Ends (fun (_ : Unit) files => files.holds file = some bytes) (fun _ => True))
        (request (Call.unlink file pid) >>= fun _ => pure (.error reason)) files :=
    secure_unlink fun _ _ _ => hfails
  rw [writeNewFile]
  split
  · exact hfails
  refine Secure.request_bind fun files₁ hrely₁ hinv₁ created files₂ hacts => ?_
  rcases hacts with ⟨rfl, rfl⟩ | ⟨rfl, -, rfl⟩
  · exact ⟨guar_refl pid _, hinv₁, hfails⟩
  obtain ⟨hguar₂, hinv₂, hdraft₂⟩ := create_step hinv₁
  refine ⟨hguar₂, hinv₂, ?_⟩
  have hfits₂ := hguar₂.1.fits (hrely₁.1.fits hfits)
  show Secure acts (terms pid) _ (writeLoop files₁.next 0 bytes >>= _) _
  refine Secure.bind (Secure.frame (P := fun files => files.Fits bytes file)
    (secure_writeLoop bytes hdraft₂) (fun _ _ hold h => (kept_of_terms h).fits hold) hfits₂)
    fun written files₃ _ hwritten => ?_
  obtain ⟨hdraft₃, hfits₃⟩ := hwritten
  split
  · exact Secure.look (fun _ _ _ h => h) (guar_refl pid) fun _ _ _ _ _ => hunlink
  rename_i hwritten
  have hdraft₃ := hdraft₃ (by simpa using hwritten)
  refine Secure.bind (Secure.frame (P := fun files => files.Fits bytes file)
    (secure_syncAndClose hdraft₃) (fun _ _ hold h => (kept_of_terms h).fits hold) hfits₃)
    fun closed files₅ _ hready => ?_
  obtain ⟨hdraft₅, hfits₅⟩ := hready
  split
  · exact hunlink
  refine Secure.request_bind fun files₆ hrely₆ hinv₆ linked files₇ hacts => ?_
  have hdraft₆ := hdraft₅.wait hrely₆
  rcases hacts with ⟨rfl, rfl⟩ | ⟨rfl, -, rfl⟩ | ⟨inode, rfl, hfree, hentry, rfl⟩
  · exact ⟨guar_refl pid _, hinv₆, hunlink⟩
  · exact ⟨guar_refl pid _, hinv₆, hunlink⟩
  · rw [hdraft₆.entry] at hentry
    cases hentry
    obtain ⟨hguar₇, hinv₇, hholds⟩ :=
      link_step hinv₆ hdraft₆ (hrely₆.1.fits hfits₅) hfree
    refine ⟨hguar₇, hinv₇, secure_unlink fun removed files₈ hkept => ?_⟩
    split
    · exact fun _ hrely _ => hrely.1.holds (hkept.holds hholds)
    · exact hfails

/-! ## Bindings -/

/-- The errors of a load. A manifest that is read is one of a binding, and its image is there. -/
def loadErrors : List WorkspaceResult := .invalidArgument :: readErrors

theorem safe_readOwnedFile (pid : Nat) (file : File) (capacity : Nat) (files : Files) :
    Safe acts (terms pid) (fun bytes files => files.holds file = some bytes) (· ∈ loadErrors)
      (ExceptT.mk (readOwnedFile file capacity)) files :=
  Safe.mono (secure_readOwnedFile pid file capacity files) (fun _ _ _ h => h)
    fun _ h => List.mem_cons_of_mem _ h

theorem pinned_lasts (pid : Nat) (binding : Binding) (files files' : Files)
    (hpinned : files.Pinned binding)
    (h : (terms pid).rely files files' ∨ (terms pid).guar files files') :
    files'.Pinned binding := (kept_of_terms h).pinned hpinned

/-- The published image passes the checks of its binding. -/
theorem Files.Bound.binds {binding : Binding} {image : Bytes} (h : files.Bound binding)
    (himage : files.holds .image = some image) : Binds binding image := by
  obtain ⟨image', himage', hbinds⟩ := h
  rw [himage] at himage'
  cases himage'
  exact hbinds

/-- A binding is compared with the image that is there. -/
theorem safe_compare {α : Type} {good : α → Files → Prop} {bad : WorkspaceResult → Prop}
    {binding : Binding} {image : Bytes} {next : Attempt α} (hbinds : Binds binding image)
    (hnext : Safe acts (terms pid) good bad next files) :
    Safe acts (terms pid) good bad (do
      let fingerprint ← validateImageBytes image
      require (image.length = binding.imageSize.toNat ∧ fingerprint = binding.imageFingerprint)
        WorkspaceResult.incompatible
      next) files := by
  refine Safe.check_bind (fun e he => ?_) fun fingerprint hfingerprint => ?_
  · rw [hbinds.valid] at he
    cases he
  · rw [hbinds.valid] at hfingerprint
    cases hfingerprint
    refine Safe.check_bind (fun e he => ?_) fun _ _ => hnext
    rw [require, if_pos ⟨hbinds.size, rfl⟩] at he
    cases he

theorem safe_load (pid : Nat) (paths : Paths) (files : Files) :
    Safe acts (terms pid) (fun binding files => files.Pinned binding) (· ∈ loadErrors)
      (load paths) files := by
  refine Safe.check_bind (fun e he => ?_) fun _ _ => ?_
  · unfold require at he
    split at he
    · cases he
    · cases he
      decide
  refine Safe.bind (safe_readOwnedFile _ _ _ _) fun manifest files₁ hinv₁ hmanifest => ?_
  -- what was read is the manifest of a binding
  obtain ⟨binding, rfl, hbound⟩ := hinv₁.manifest manifest hmanifest
  have hdecode := decodeManifest_encode hbound.valid
  refine Safe.check_bind (fun e he => ?_) fun decoded hdecoded => ?_
  · rw [hdecode] at he
    cases he
  rw [hdecode] at hdecoded
  cases hdecoded
  refine Safe.bind (Safe.frame (safe_readOwnedFile _ _ _ _) (pinned_lasts pid binding)
    ⟨hmanifest, hbound⟩) fun image files₂ _ hread => ?_
  obtain ⟨himage, hpinned⟩ := hread
  exact safe_compare (hpinned.image.binds himage)
    (Safe.pure fun _ hrely _ => hrely.1.pinned hpinned)

theorem safe_loadBoundImage (pid : Nat) (paths : Paths) (files : Files) :
    Safe acts (terms pid) (fun image files => files.holds .image = some image ∧
      ∃ binding, files.Pinned binding) (· ∈ loadErrors) (loadBoundImage paths) files := by
  refine Safe.bind (safe_load _ _ _) fun binding files₁ _ hpinned₁ => ?_
  refine Safe.bind (Safe.frame (safe_readOwnedFile _ _ _ _) (pinned_lasts pid binding) hpinned₁)
    fun image files₂ _ hread => ?_
  obtain ⟨himage, hpinned⟩ := hread
  exact safe_compare (hpinned.image.binds himage)
    (Safe.pure fun _ hrely _ => ⟨hrely.1.holds himage, binding, hrely.1.pinned hpinned⟩)

/-- What a bind has come to when it ends well. -/
structure Files.BoundFor (files : Files) (workflowId : UInt32) (acceptor : Option (Bytes → Bool))
    (binding : Binding) : Prop where
  pinned : files.Pinned binding
  workflow : binding.workflowId = workflowId
  accepted : ∃ image, files.holds .image = some image ∧ ∀ accepts ∈ acceptor, accepts image = true

theorem Kept.boundFor {files' : Files} {workflowId : UInt32} {acceptor : Option (Bytes → Bool)}
    {binding : Binding} (h : Kept files files')
    (hbound : files.BoundFor workflowId acceptor binding) :
    files'.BoundFor workflowId acceptor binding where
  pinned := h.pinned hbound.pinned
  workflow := hbound.workflow
  accepted := by
    obtain ⟨image, himage, haccepts⟩ := hbound.accepted
    exact ⟨image, h.holds himage, haccepts⟩

theorem safe_publishImage {source : Bytes} {fingerprint : UInt64}
    (hvalid : validateImageBytes source = .ok fingerprint) :
    Safe acts (terms pid) (fun _ files => files.holds .image = some source) (fun _ => True)
      (publishImage paths pid source) files := by
  refine Safe.lift_bind (secure_readOwnedFile _ _ _ _) fun result files₁ _ hresult => ?_
  match result with
  | .ok orphan =>
    have horphan : files₁.holds .image = some orphan := hresult
    show Safe _ _ _ _ (monadLift (require (orphan = source) WorkspaceResult.incompatible)) _
    unfold require
    split
    · rename_i heq
      subst heq
      exact Safe.pure fun _ hrely _ => hrely.1.holds horphan
    · exact Safe.throw trivial
  | .error .notInitialized => exact secure_writeNewFile .image ⟨fingerprint, hvalid⟩
  | .error .invalidArgument => exact Safe.throw trivial
  | .error .pathTooLong => exact Safe.throw trivial
  | .error .unsafeDirectory => exact Safe.throw trivial
  | .error .invalidManifest => exact Safe.throw trivial
  | .error .incompatible => exact Safe.throw trivial
  | .error .invalidImage => exact Safe.throw trivial
  | .error .ioError => exact Safe.throw trivial
  | .error .actionNotFound => exact Safe.throw trivial

theorem safe_bindNew {source : Bytes} {wanted : Binding} (hbinds : Binds wanted source) :
    Safe acts (terms pid) (fun binding files => binding = wanted ∧ files.Pinned wanted ∧
      files.holds .image = some source) (fun _ => True) (bindNew paths pid source wanted) files := by
  have hlook : Secure acts (terms pid) (fun _ _ => True) (request (Call.lstat .manifest)) files :=
    Secure.last (fun _ _ _ h => h.1) (guar_refl pid) fun _ _ _ _ _ _ _ _ => trivial
  refine Safe.lift_bind hlook fun found files₁ _ _ => ?_
  refine Safe.check_bind (fun _ _ => trivial) fun _ _ => ?_
  refine Safe.check_bind (fun _ _ => trivial) fun _ _ => ?_
  have hscan : Safe acts (terms pid) (fun _ _ => True) (fun _ => True)
      (ExceptT.mk requireEmptyState) files₁ := by
    refine Secure.look (fun _ _ _ h => h.1) (guar_refl pid) fun _ _ _ scanned _ => ?_
    cases scanned <;> exact fun _ _ _ => trivial
  refine Safe.bind hscan fun _ files₂ _ _ => ?_
  refine Safe.bind (safe_publishImage hbinds.valid) fun _ files₃ _ himage => ?_
  -- the image is there for good when the manifest is written
  refine Safe.bind (Safe.frame (secure_writeNewFile .manifest
    ⟨wanted, rfl, source, himage, hbinds⟩) (holds_lasts pid .image source) himage)
    fun _ files₄ _ hwritten => ?_
  have hpinned : files₄.Pinned wanted := ⟨hwritten.1, source, hwritten.2, hbinds⟩
  have hsync : Safe acts (terms pid) (fun _ files => files.Pinned wanted ∧
      files.holds .image = some source) (fun _ => True) (ExceptT.mk syncWorkspace) files₄ := by
    refine Secure.look (fun _ _ _ h => h) (guar_refl pid) fun _ hrely _ synced _ => ?_
    split
    · exact fun _ hrely' _ => ⟨hrely'.1.pinned (hrely.1.pinned hpinned),
        hrely'.1.holds (hrely.1.holds hwritten.2)⟩
    · exact fun _ _ _ => trivial
  refine Safe.bind hsync fun _ files₅ _ hsynced => ?_
  exact Safe.pure fun _ hrely _ => ⟨rfl, hrely.1.pinned hsynced.1, hrely.1.holds hsynced.2⟩

theorem safe_bindAgain {source : Bytes} {wanted existing : Binding}
    (hpinned : files.Pinned existing) :
    Safe acts (terms pid) (fun binding files => binding = existing ∧ files.Pinned existing ∧
      existing.workflowId = wanted.workflowId ∧ files.holds .image = some source) (fun _ => True)
      (bindAgain source wanted existing) files := by
  refine Safe.lift_bind (Secure.frame (secure_readOwnedFile _ _ _ _) (pinned_lasts pid existing) hpinned)
    fun result files₁ _ hresult => ?_
  obtain ⟨hread, hpinned₁⟩ := hresult
  refine Safe.check_bind (fun _ _ => trivial) fun _ hsame => ?_
  obtain ⟨rfl, hworkflow⟩ := require_ok.mp hsame
  exact Safe.pure fun _ hrely _ =>
    ⟨rfl, hrely.1.pinned hpinned₁, hworkflow, hrely.1.holds hread⟩

theorem safe_bindChecked (pid : Nat) (paths : Paths) (workflowId : UInt32)
    (acceptor : Option (Bytes → Bool)) (files : Files) :
    Safe acts (terms pid) (fun binding files => files.BoundFor workflowId acceptor binding)
      (fun _ => True) (bindChecked paths pid workflowId acceptor) files := by
  refine Safe.check_bind (fun _ _ => trivial) fun _ hworkflow => ?_
  have hworkflow := require_ok.mp hworkflow
  refine Safe.bind (secure_readSourceImage _ _ _) fun source files₁ _ _ => ?_
  refine Safe.check_bind (fun _ _ => trivial) fun _ haccepts => ?_
  have haccepts := require_ok.mp haccepts
  refine Safe.check_bind (fun _ _ => trivial) fun fingerprint hvalid => ?_
  have hbinds := binds_wanted hworkflow hvalid
  refine Safe.lift_bind (safe_load _ _ _) fun result files₂ _ hresult => ?_
  match result with
  | .ok existing =>
    refine Safe.mono (safe_bindAgain hresult) (fun binding files _ h => ?_) fun _ h => h
    obtain ⟨rfl, hpinned, hsame, himage⟩ := h
    exact ⟨hpinned, hsame, source, himage, haccepts⟩
  | .error .notInitialized =>
    refine Safe.mono (safe_bindNew hbinds) (fun binding files _ h => ?_) fun _ h => h
    obtain ⟨rfl, hpinned, himage⟩ := h
    exact ⟨hpinned, rfl, source, himage, haccepts⟩
  | .error .invalidArgument => exact Safe.throw trivial
  | .error .pathTooLong => exact Safe.throw trivial
  | .error .unsafeDirectory => exact Safe.throw trivial
  | .error .invalidManifest => exact Safe.throw trivial
  | .error .incompatible => exact Safe.throw trivial
  | .error .invalidImage => exact Safe.throw trivial
  | .error .ioError => exact Safe.throw trivial
  | .error .actionNotFound => exact Safe.throw trivial

end Programs

/-! ## Requests -/

/-- What an outcome says of the files from then on. -/
def Request.Right : Request → Except WorkspaceResult Outcome → Files → Prop
  | .bind workflowId acceptor =>
      Ends (fun outcome files => ∃ binding, outcome = .binding binding ∧
        files.BoundFor workflowId acceptor binding) (fun _ => True)
  | .load =>
      Ends (fun outcome files => ∃ binding, outcome = .binding binding ∧ files.Pinned binding)
        (· ∈ loadErrors)
  | .contract fingerprint =>
      Ends (fun outcome files => ∃ contract image, outcome = .contract contract ∧
        files.holds .image = some image ∧
          Image.findActionContract image fingerprint = .ok contract)
        (· ∈ .invalidImage :: .actionNotFound :: loadErrors)

theorem Request.secure (paths : Paths) (pid : Nat) (request : Request) (files : Files) :
    Secure acts (terms pid) request.Right (request.task paths pid) files := by
  cases request with
  | bind workflowId acceptor =>
      exact Safe.map (Safe.mono (safe_bindChecked _ _ _ _ _)
        (fun binding _ _ hbound => ⟨binding, rfl, hbound⟩) fun _ h => h)
  | load =>
      exact Safe.map (Safe.mono (safe_load _ _ _)
        (fun binding _ _ hpinned => ⟨binding, rfl, hpinned⟩) fun _ h => h)
  | contract fingerprint =>
      refine Safe.map (Safe.bind (Safe.mono (safe_loadBoundImage _ _ _) (fun _ _ _ h => h)
        fun _ h => List.mem_cons_of_mem _ (List.mem_cons_of_mem _ h)) fun image files₁ _ hload => ?_)
      show Safe _ _ _ _ (monadLift (contractIn (Image.findActionContract image fingerprint))) _
      cases hfound : Image.findActionContract image fingerprint with
      | ok contract =>
          exact Safe.pure fun _ hrely _ =>
            ⟨contract, image, rfl, hrely.1.holds hload.1, hfound⟩
      | error reason =>
          have hbad : ∀ e, contractIn (.error reason : Except _ Image.ResolvedContract) = .error e →
              e ∈ WorkspaceResult.invalidImage :: .actionNotFound :: loadErrors := by
            intro e he
            cases reason <;> cases he <;> decide
          cases hresult : contractIn (.error reason : Except _ Image.ResolvedContract) with
          | ok contract => cases reason <;> cases hresult
          | error e => exact Safe.throw (hbad e hresult)

theorem Request.right_lasts {request : Request} {result : Except WorkspaceResult Outcome}
    {files files' : Files} (h : request.Right result files) (hkept : Kept files files') :
    request.Right result files' := by
  cases request <;> cases result
  case bind.ok =>
    obtain ⟨binding, houtcome, hbound⟩ := h
    exact ⟨binding, houtcome, hkept.boundFor hbound⟩
  case load.ok =>
    obtain ⟨binding, houtcome, hpinned⟩ := h
    exact ⟨binding, houtcome, hkept.pinned hpinned⟩
  case contract.ok =>
    obtain ⟨contract, image, houtcome, himage, hfound⟩ := h
    exact ⟨contract, image, houtcome, hkept.holds himage, hfound⟩
  all_goals exact h

/-- The processes of a workspace fit together. -/
theorem rules_sound (paths : Paths) :
    Commons.Sound (rules paths) terms Files.Inv Request.Right where
  same _ := rfl
  init files hnone := by
    have hholds : ∀ file, files.holds file = none := by
      intro file
      rw [Files.holds, hnone]
      rfl
    refine ⟨fun name inode hentry => ?_, fun file pid _ _ inode hentry => ?_, fun image himage => ?_,
      fun bytes hbytes => ?_⟩
    · rw [hnone] at hentry
      cases hentry
    · rw [hnone] at hentry
      cases hentry
    · rw [hholds] at himage
      cases himage
    · rw [hholds] at hbytes
      cases hbytes
  secure pid request files _ _ := request.secure paths pid files
  reap pid files hinv := ⟨hinv, guar_refl pid files⟩
  others p q files files' hne _ _ hguar := ⟨hguar.1, hguar.2 p hne⟩
  outside files files' hinv houtside := by
    obtain ⟨occupied, rfl⟩ := houtside
    refine ⟨⟨hinv.allocated, hinv.apart, hinv.image, hinv.manifest⟩, fun pid => ⟨fun _ _ h => ⟨h, rfl⟩, ?_⟩⟩
    exact ⟨fun _ => rfl, fun _ _ _ => rfl, fun _ _ _ _ h => h⟩
  crash _ _ _ hcrash := absurd hcrash id
  lasting request result files files' _ hright hmoves := by
    refine Request.right_lasts hright ?_
    rcases hmoves with ⟨pid, hguar⟩ | ⟨occupied, rfl⟩ | hcrash
    · exact hguar.1
    · exact fun _ _ h => ⟨h, rfl⟩
    · exact absurd hcrash id

/-- A workspace with its processes. -/
abbrev Processes := Commons Nat Request Answer (Except WorkspaceResult Outcome) Files

end Hermas.Workspace
