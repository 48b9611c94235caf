import Hermas.Workspace.Bind

/-!
# What processes on one workspace rely on

Any number of processes may bind a workspace and read its binding at one time, and be
killed in the middle. What each of them needs of the others is that a published file stays
with its bytes and that its own temporary files are left alone, and this is what each of
them guarantees at every call.
-/

namespace Hermas.Workspace

open Program (Terms)
open Files (managed_ne_temporary temporary_ne_managed)

/-! ## What is pinned -/

theorem imageValidate_length {image : Bytes} {summary : Image.Summary}
    (h : Image.imageValidate image = .ok summary) :
    Image.headerSize ≤ image.length ∧ image.length ≤ Image.maxSize := by
  simp only [Image.imageValidate, Image.validateFrame, bind_ok, require_ok] at h
  obtain ⟨-, ⟨-, hheader, -, hsize, -⟩, -⟩ := h
  exact ⟨hheader, hsize⟩

theorem validateImageBytes_ok {image : Bytes} {fingerprint : UInt64} :
    validateImageBytes image = .ok fingerprint ↔
      (∃ summary, Image.imageValidate image = .ok summary) ∧ fingerprint ≠ 0 ∧
        fingerprint = Journal.imageFingerprint image := by
  unfold validateImageBytes
  split
  · rename_i hinvalid
    simp [hinvalid]
  · rename_i summary hvalid
    split
    · rename_i hzero
      simp [hzero]
    · rename_i hzero
      rw [Except.ok.injEq]
      constructor
      · rintro rfl
        exact ⟨⟨summary, hvalid⟩, hzero, rfl⟩
      · rintro ⟨-, -, rfl⟩
        rfl

/-- The binding is of the image. -/
structure Binds (binding : Binding) (image : Bytes) : Prop where
  valid : validateImageBytes image = .ok binding.imageFingerprint
  size : image.length = binding.imageSize.toNat
  workflow : binding.workflowId ≠ 0

theorem Binds.binding_valid {binding : Binding} {image : Bytes} (h : Binds binding image) :
    binding.Valid := by
  obtain ⟨⟨summary, hvalid⟩, hzero, -⟩ := validateImageBytes_ok.mp h.valid
  obtain ⟨hheader, hsize⟩ := imageValidate_length hvalid
  have hpos : 0 < Image.headerSize := by decide
  refine ⟨h.workflow, hzero, fun hempty => ?_, h.size ▸ hsize⟩
  have hnone := h.size
  rw [hempty, UInt64.toNat_zero] at hnone
  omega

/-- The binding that a bind wants. -/
theorem binds_wanted {workflowId : UInt32} {image : Bytes} {fingerprint : UInt64}
    (hworkflow : workflowId ≠ 0) (hvalid : validateImageBytes image = .ok fingerprint) :
    Binds ⟨workflowId, fingerprint, UInt64.ofNat image.length⟩ image := by
  obtain ⟨⟨summary, himage⟩, -, -⟩ := validateImageBytes_ok.mp hvalid
  have hsize := (imageValidate_length himage).2
  refine ⟨hvalid, ?_, hworkflow⟩
  show image.length = (UInt64.ofNat image.length).toNat
  have hsmall : Image.maxSize < UInt64.size := by decide
  rw [UInt64.toNat_ofNat_of_lt' (by omega)]

/-- The published image is the one of the binding. -/
def Files.Bound (files : Files) (binding : Binding) : Prop :=
  ∃ image, files.holds .image = some image ∧ Binds binding image

theorem Files.Bound.valid {files : Files} {binding : Binding} (h : files.Bound binding) :
    binding.Valid := by
  obtain ⟨image, -, hbinds⟩ := h
  exact hbinds.binding_valid

/-- The workspace is pinned to a binding. -/
structure Files.Pinned (files : Files) (binding : Binding) : Prop where
  manifest : files.holds .manifest = some (encodeManifest binding)
  image : files.Bound binding

/-- What is true of the files at every moment. -/
structure Files.Inv (files : Files) : Prop where
  allocated : ∀ name inode, files.entries name = some inode → inode < files.next
  apart : ∀ file pid file' pid' inode, files.entries (.temporary file pid) = some inode →
    files.entries (.temporary file' pid') = some inode → file = file' ∧ pid = pid'
  image : ∀ image, files.holds .image = some image →
    ∃ fingerprint, validateImageBytes image = .ok fingerprint
  manifest : ∀ bytes, files.holds .manifest = some bytes →
    ∃ binding, bytes = encodeManifest binding ∧ files.Bound binding

/-! ## What the processes rely on -/

/-- What is published stays published. -/
def Kept (files files' : Files) : Prop :=
  ∀ file inode, files.entries (.managed file) = some inode →
    files'.entries (.managed file) = some inode ∧
      files'.contents inode = files.contents inode

/-- The temporary files of a process are left alone. -/
structure Spares (pid : Nat) (files files' : Files) : Prop where
  entries : ∀ file, files'.entries (.temporary file pid) = files.entries (.temporary file pid)
  contents : ∀ file inode, files.entries (.temporary file pid) = some inode →
    files'.contents inode = files.contents inode
  unpublished : ∀ file file' inode, files.entries (.temporary file pid) = some inode →
    files'.entries (.managed file') = some inode → files.entries (.managed file') = some inode

theorem Kept.refl (files : Files) : Kept files files := fun _ _ h => ⟨h, rfl⟩

theorem Kept.trans {files files' files'' : Files} (h : Kept files files')
    (h' : Kept files' files'') : Kept files files'' := by
  intro file inode hentry
  obtain ⟨hentry', hcontents⟩ := h file inode hentry
  obtain ⟨hentry'', hcontents'⟩ := h' file inode hentry'
  exact ⟨hentry'', hcontents'.trans hcontents⟩

theorem Spares.refl (pid : Nat) (files : Files) : Spares pid files files :=
  ⟨fun _ => rfl, fun _ _ _ => rfl, fun _ _ _ _ h => h⟩

theorem Spares.trans {pid : Nat} {files files' files'' : Files} (h : Spares pid files files')
    (h' : Spares pid files' files'') : Spares pid files files'' where
  entries file := (h'.entries file).trans (h.entries file)
  contents file inode hentry := by
    have hentry' := (h.entries file).trans hentry
    exact (h'.contents file inode hentry').trans (h.contents file inode hentry)
  unpublished file file' inode hentry hpublished := by
    have hentry' := (h.entries file).trans hentry
    exact h.unpublished file file' inode hentry (h'.unpublished file file' inode hentry' hpublished)

/-- The terms of the process with a number. -/
def terms (pid : Nat) : Terms Files where
  inv := Files.Inv
  rely files files' := Kept files files' ∧ Spares pid files files'
  guar files files' := Kept files files' ∧ ∀ other ≠ pid, Spares other files files'
  rely_refl files := ⟨.refl files, .refl pid files⟩
  rely_trans _ _ _ h h' := ⟨h.1.trans h'.1, h.2.trans h'.2⟩

section Terms

variable {pid : Nat} {files files' : Files}

theorem guar_refl (pid : Nat) (files : Files) : (terms pid).guar files files :=
  ⟨.refl files, fun other _ => .refl other files⟩

theorem kept_of_terms (h : (terms pid).rely files files' ∨ (terms pid).guar files files') :
    Kept files files' := by
  rcases h with h | h
  · exact h.1
  · exact h.1

theorem Kept.holds (h : Kept files files') {file : File} {bytes : Bytes}
    (hholds : files.holds file = some bytes) : files'.holds file = some bytes := by
  obtain ⟨inode, hentry, rfl⟩ := Option.map_eq_some_iff.mp hholds
  obtain ⟨hentry', hcontents⟩ := h file inode hentry
  rw [Files.holds, hentry', Option.map_some, hcontents]

theorem Kept.bound (h : Kept files files') {binding : Binding} (hbound : files.Bound binding) :
    files'.Bound binding := by
  obtain ⟨image, himage, hbinds⟩ := hbound
  exact ⟨image, h.holds himage, hbinds⟩

theorem Kept.pinned (h : Kept files files') {binding : Binding} (hpinned : files.Pinned binding) :
    files'.Pinned binding := ⟨h.holds hpinned.manifest, h.bound hpinned.image⟩

/-- What is said of published files is not undone. -/
theorem holds_lasts (pid : Nat) (file : File) (bytes : Bytes) (files files' : Files)
    (hholds : files.holds file = some bytes)
    (h : (terms pid).rely files files' ∨ (terms pid).guar files files') :
    files'.holds file = some bytes := (kept_of_terms h).holds hholds

end Terms

/-! ## What the calls do -/

section Steps

variable {pid : Nat} {file : File} {files : Files}

/-- A temporary file of the process with these bytes, which is not published. -/
structure Draft (pid : Nat) (file : File) (inode : Nat) (bytes : Bytes) (files : Files) :
    Prop where
  entry : files.entries (.temporary file pid) = some inode
  contents : files.contents inode = bytes
  unpublished : ∀ file', files.entries (.managed file') ≠ some inode

theorem Draft.wait {inode : Nat} {bytes : Bytes} {files' : Files}
    (h : Draft pid file inode bytes files) (hrely : (terms pid).rely files files') :
    Draft pid file inode bytes files' where
  entry := (hrely.2.entries file).trans h.entry
  contents := (hrely.2.contents file inode h.entry).trans h.contents
  unpublished file' hpublished :=
    h.unpublished file' (hrely.2.unpublished file file' inode h.entry hpublished)

/-- A step that publishes nothing keeps what the invariant says of the published files. -/
theorem Files.Inv.unpublished {files' : Files} (h : files.Inv)
    (hallocated : ∀ name inode, files'.entries name = some inode → inode < files'.next)
    (hapart : ∀ file pid file' pid' inode, files'.entries (.temporary file pid) = some inode →
      files'.entries (.temporary file' pid') = some inode → file = file' ∧ pid = pid')
    (hholds : ∀ file, files'.holds file = files.holds file) : files'.Inv where
  allocated := hallocated
  apart := hapart
  image image himage := h.image image (hholds .image ▸ himage)
  manifest bytes hbytes := by
    obtain ⟨binding, rfl, image, himage, hbinds⟩ := h.manifest bytes (hholds .manifest ▸ hbytes)
    exact ⟨binding, rfl, image, (hholds .image).trans himage, hbinds⟩

theorem create_step (hinv : files.Inv) :
    (terms pid).guar files (files.create (.temporary file pid)) ∧
      (files.create (.temporary file pid)).Inv ∧
      Draft pid file files.next [] (files.create (.temporary file pid)) := by
  have hentries : ∀ name, name ≠ .temporary file pid →
      (files.create (.temporary file pid)).entries name = files.entries name :=
    fun name hname => Files.create_ne hname
  have hself : (files.create (.temporary file pid)).entries (.temporary file pid) =
      some files.next := Files.create_self
  have hcontents : ∀ inode, inode < files.next →
      (files.create (.temporary file pid)).contents inode = files.contents inode := by
    intro inode hlt
    exact Function.update_of_ne (by omega) ..
  have hnew : ∀ name inode, (files.create (.temporary file pid)).entries name = some inode →
      (name = .temporary file pid ∧ inode = files.next) ∨
        (files.entries name = some inode ∧ inode < files.next) := by
    intro name inode hentry
    by_cases hname : name = .temporary file pid
    · subst hname
      rw [hself] at hentry
      exact .inl ⟨rfl, (Option.some.inj hentry).symm⟩
    · rw [hentries name hname] at hentry
      exact .inr ⟨hentry, hinv.allocated name inode hentry⟩
  refine ⟨⟨fun file' inode hentry => ?_, fun other hother => ?_⟩, ?_, hself,
    Function.update_self .., fun file' hpublished => ?_⟩
  · have hlt := hinv.allocated _ inode hentry
    exact ⟨(hentries _ (managed_ne_temporary _ _ _)).trans hentry, hcontents inode hlt⟩
  · have hname : ∀ file', Name.temporary file' other ≠ .temporary file pid := by
      intro file' heq
      cases heq
      exact hother rfl
    refine ⟨fun file' => hentries _ (hname file'), fun file' inode hentry => ?_,
      fun file' file'' inode _ hpublished => ?_⟩
    · exact hcontents inode (hinv.allocated _ inode hentry)
    · rwa [hentries _ (managed_ne_temporary _ _ _)] at hpublished
  · refine hinv.unpublished (fun name inode hentry => ?_)
      (fun file' pid' file'' pid'' inode hentry hentry' => ?_) fun file' => ?_
    · show inode < files.next + 1
      rcases hnew name inode hentry with ⟨-, rfl⟩ | ⟨-, hlt⟩
      · omega
      · omega
    · -- the new inode has one name
      rcases hnew _ inode hentry with ⟨hname, rfl⟩ | ⟨hold, hlt⟩
      · rcases hnew _ _ hentry' with ⟨hname', -⟩ | ⟨-, hlt⟩
        · cases hname
          cases hname'
          exact ⟨rfl, rfl⟩
        · omega
      · rcases hnew _ inode hentry' with ⟨-, rfl⟩ | ⟨hold', -⟩
        · omega
        · exact hinv.apart _ _ _ _ inode hold hold'
    · rw [Files.holds, Files.holds, hentries _ (managed_ne_temporary _ _ _)]
      cases hentry : files.entries (.managed file') with
      | none => rfl
      | some inode =>
          rw [Option.map_some, Option.map_some, hcontents inode (hinv.allocated _ _ hentry)]
  · rw [hentries _ (managed_ne_temporary _ _ _)] at hpublished
    have := hinv.allocated _ _ hpublished
    omega

theorem write_step {inode : Nat} {bytes : Bytes} (new : Bytes) (hinv : files.Inv)
    (hdraft : Draft pid file inode bytes files) :
    (terms pid).guar files (files.write inode bytes.length new) ∧
      (files.write inode bytes.length new).Inv ∧
      Draft pid file inode (bytes ++ new) (files.write inode bytes.length new) := by
  have hcontents : ∀ other ≠ inode,
      (files.write inode bytes.length new).contents other = files.contents other :=
    fun other hother => Function.update_of_ne hother ..
  have hpublished : ∀ file' other, files.entries (.managed file') = some other →
      other ≠ inode := by
    rintro file' other hentry rfl
    exact hdraft.unpublished file' hentry
  refine ⟨⟨fun file' other hentry => ?_, fun other hother => ?_⟩, ?_, hdraft.entry, ?_,
    hdraft.unpublished⟩
  · exact ⟨hentry, hcontents other (hpublished file' other hentry)⟩
  · refine ⟨fun _ => rfl, fun file' inode' hentry => hcontents inode' ?_, fun _ _ _ _ h => h⟩
    -- the draft is the file of this process only
    rintro rfl
    exact hother (hinv.apart _ _ _ _ inode' hentry hdraft.entry).2
  · refine hinv.unpublished hinv.allocated hinv.apart fun file' => ?_
    rw [Files.holds, Files.holds]
    show (files.entries (.managed file')).map _ = _
    cases hentry : files.entries (.managed file') with
    | none => rfl
    | some other =>
        rw [Option.map_some, Option.map_some, hcontents other (hpublished file' other hentry)]
  · show Function.update files.contents inode _ inode = bytes ++ new
    rw [Function.update_self, hdraft.contents, overwrite_end]

/-- The bytes may be published as the file. -/
def Files.Fits (files : Files) (bytes : Bytes) : File → Prop
  | .image => ∃ fingerprint, validateImageBytes bytes = .ok fingerprint
  | .manifest => ∃ binding, bytes = encodeManifest binding ∧ files.Bound binding

theorem Kept.fits {files' : Files} {bytes : Bytes} (h : Kept files files')
    (hfits : files.Fits bytes file) : files'.Fits bytes file := by
  cases file with
  | image => exact hfits
  | manifest =>
      obtain ⟨binding, hbytes, hbound⟩ := hfits
      exact ⟨binding, hbytes, h.bound hbound⟩

theorem link_step {inode : Nat} {bytes : Bytes} (hinv : files.Inv)
    (hdraft : Draft pid file inode bytes files) (hfits : files.Fits bytes file)
    (hnone : files.entries (.managed file) = none) :
    (terms pid).guar files (files.enter (.managed file) (some inode)) ∧
      (files.enter (.managed file) (some inode)).Inv ∧
      (files.enter (.managed file) (some inode)).holds file = some bytes := by
  have hentries : ∀ name, name ≠ .managed file →
      (files.enter (.managed file) (some inode)).entries name = files.entries name :=
    fun name hname => Files.enter_ne hname _
  have hself : (files.enter (.managed file) (some inode)).entries (.managed file) = some inode :=
    Files.enter_self _
  have hholds : (files.enter (.managed file) (some inode)).holds file = some bytes := by
    rw [Files.holds, hself, Option.map_some]
    exact congrArg some hdraft.contents
  have hkept : Kept files (files.enter (.managed file) (some inode)) := by
    intro file' inode' hentry
    refine ⟨?_, rfl⟩
    rw [hentries, hentry]
    rintro ⟨⟩
    rw [hnone] at hentry
    cases hentry
  -- what is published now and was not before is the draft
  have hnew : ∀ file' bytes', (files.enter (.managed file) (some inode)).holds file' = some bytes' →
      (file' = file ∧ bytes' = bytes) ∨ files.holds file' = some bytes' := by
    intro file' bytes' hbytes'
    by_cases hfile : file' = file
    · subst hfile
      rw [hholds] at hbytes'
      exact .inl ⟨rfl, (Option.some.inj hbytes').symm⟩
    · refine .inr ?_
      rw [Files.holds, hentries _ (by simpa using hfile)] at hbytes'
      exact hbytes'
  refine ⟨⟨hkept, fun other hother => ?_⟩, ?_, hholds⟩
  · refine ⟨fun file' => hentries _ (temporary_ne_managed _ _ _), fun _ _ _ => rfl,
      fun file' file'' inode' hentry hpublished => ?_⟩
    by_cases hfile : file'' = file
    · subst hfile
      rw [hself] at hpublished
      cases hpublished
      exact absurd (hinv.apart _ _ _ _ inode hentry hdraft.entry).2 hother
    · rwa [hentries _ (by simpa using hfile)] at hpublished
  · have htemporary : ∀ file' pid',
        (files.enter (.managed file) (some inode)).entries (.temporary file' pid') =
          files.entries (.temporary file' pid') := fun file' pid' => hentries _ (temporary_ne_managed _ _ _)
    constructor
    · intro name inode' hentry
      by_cases hname : name = .managed file
      · subst hname
        rw [hself] at hentry
        cases hentry
        exact hinv.allocated _ _ hdraft.entry
      · rw [hentries name hname] at hentry
        exact hinv.allocated name inode' hentry
    · intro file' pid' file'' pid'' inode' hentry hentry'
      rw [htemporary] at hentry hentry'
      exact hinv.apart _ _ _ _ inode' hentry hentry'
    · intro image himage
      rcases hnew .image image himage with ⟨hfile, rfl⟩ | hold
      · subst hfile
        exact hfits
      · exact hinv.image image hold
    · intro bytes' hbytes'
      rcases hnew .manifest bytes' hbytes' with ⟨hfile, rfl⟩ | hold
      · subst hfile
        have hfits : files.Fits bytes' .manifest := hfits
        exact hkept.fits hfits
      · obtain ⟨binding, hbinding, hbound⟩ := hinv.manifest bytes' hold
        exact ⟨binding, hbinding, hkept.bound hbound⟩

variable (pid file) in
theorem unlink_step (hinv : files.Inv) :
    (terms pid).guar files (files.enter (.temporary file pid) none) ∧
      (files.enter (.temporary file pid) none).Inv := by
  have hentries : ∀ name, name ≠ .temporary file pid →
      (files.enter (.temporary file pid) none).entries name = files.entries name :=
    fun name hname => Files.enter_ne hname _
  have hold : ∀ name inode, (files.enter (.temporary file pid) none).entries name = some inode →
      files.entries name = some inode := by
    intro name inode hentry
    by_cases hname : name = .temporary file pid
    · subst hname
      have hself : (files.enter (.temporary file pid) none).entries (.temporary file pid) = none :=
        Files.enter_self _
      rw [hself] at hentry
      cases hentry
    · rwa [hentries name hname] at hentry
  refine ⟨⟨fun file' inode hentry => ?_, fun other hother => ?_⟩, ?_⟩
  · exact ⟨(hentries _ (managed_ne_temporary _ _ _)).trans hentry, rfl⟩
  · have hname : ∀ file', Name.temporary file' other ≠ .temporary file pid := by
      intro file' heq
      cases heq
      exact hother rfl
    exact ⟨fun file' => hentries _ (hname file'), fun _ _ _ => rfl,
      fun _ _ inode _ hpublished => hold _ inode hpublished⟩
  · refine hinv.unpublished (fun name inode hentry => hinv.allocated name inode (hold name inode hentry))
      (fun file' pid' file'' pid'' inode hentry hentry' => ?_) fun file' => ?_
    · exact hinv.apart _ _ _ _ inode (hold _ _ hentry) (hold _ _ hentry')
    · rw [Files.holds, Files.holds, hentries _ (managed_ne_temporary _ _ _)]
      rfl

end Steps

end Hermas.Workspace
