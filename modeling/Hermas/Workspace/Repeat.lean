import Hermas.Runtime.Agreement
import Hermas.Workspace.Bound

/-!
# Binding again

When every call succeeds a bind comes to its end, whatever was there before: it is accepted when the
workspace is bound to the same workflow and image, and when it is not bound, has no durable
state and no image but, at most, this one, which is what an interrupted bind leaves. Anything
else is refused, and then no file is touched. Reads and writes may still be short.
-/

namespace Hermas.Workspace

open Files (managed_ne_temporary temporary_ne_managed)
open Program (request run_try_ok run_try_error run_check_ok run_check_error run_lift_bind)

/-- What an open file holds. -/
def Files.content (files : Files) (source : Bytes) : Descriptor → Bytes
  | .inode inode => files.contents inode
  | .source => source

/-- A kernel under which no call fails; one read or write moves `chunk + 1` bytes at most. -/
def serve (source : Bytes) (chunk : Nat) : (c : Call) → Files → Answer c × Files
  | .openSource, files => (true, files)
  | .openManaged file, files =>
      match files.entries (.managed file) with
      | some inode => (.inode inode, files)
      | none => (.absent, files)
  | .fstat descriptor, files =>
      (some ⟨true, true, true, (files.content source descriptor).length⟩, files)
  | .read descriptor offset count, files =>
      (some ⟨((files.content source descriptor).drop offset).take (min count (chunk + 1)),
        le_trans (List.length_take_le _ _) (Nat.min_le_left _ _)⟩, files)
  | .close _, files => (true, files)
  | .lstat file, files =>
      match files.entries (.managed file) with
      | some _ => (.present, files)
      | none => (.absent, files)
  | .scanState, files => (if files.occupied then .occupied else .empty, files)
  | .create file pid, files =>
      if files.entries (.temporary file pid) = none then
        (some files.next, files.create (.temporary file pid))
      else (none, files)
  | .write inode offset bytes, files =>
      (some ⟨min bytes.length (chunk + 1), Nat.min_le_left _ _⟩,
        files.write inode offset (bytes.take (min bytes.length (chunk + 1))))
  | .fsync _, files => (true, files)
  | .link file pid, files =>
      match files.entries (.managed file), files.entries (.temporary file pid) with
      | some _, _ => (.exists, files)
      | none, none => (.failed, files)
      | none, some inode => (.done, files.enter (.managed file) (some inode))
  | .unlink file pid, files =>
      if files.entries (.temporary file pid) = none then (false, files)
      else (true, files.enter (.temporary file pid) none)
  | .syncDirectory, files => (true, files)

section Serve

variable {source : Bytes} {chunk pid : Nat} {paths : Paths} {file : File} {files : Files}

theorem serve_acts (source : Bytes) (chunk : Nat) (c : Call) (files : Files) :
    acts c files (serve source chunk c files).1 (serve source chunk c files).2 := by
  cases c with
  | openManaged file =>
      simp only [acts, serve]
      cases files.entries (.managed file) <;> simp
  | fstat descriptor => cases descriptor <;> simp [acts, serve, Files.content]
  | read descriptor offset count =>
      cases descriptor with
      | source => rfl
      | inode inode =>
          refine ⟨rfl, fun bytes hbytes => ?_⟩
          cases hbytes
          refine ⟨List.take_prefix _ _, fun hnil => ?_⟩
          rcases List.take_eq_nil_iff.mp hnil with hcount | hdrop
          · left
            omega
          · exact .inr (List.drop_eq_nil_iff.mp hdrop)
  | lstat file =>
      simp only [acts, serve]
      cases files.entries (.managed file) <;> simp
  | create file pid =>
      simp only [acts, serve]
      split
      · rename_i hnone
        exact .inr ⟨rfl, hnone, rfl⟩
      · exact .inl ⟨rfl, rfl⟩
  | write inode offset bytes => exact .inr ⟨_, rfl, rfl⟩
  | link file pid =>
      simp only [acts, serve]
      cases hmanaged : files.entries (.managed file) with
      | some inode => exact .inr (.inl ⟨rfl, nofun, rfl⟩)
      | none =>
          cases htemporary : files.entries (.temporary file pid) with
          | none => exact .inl ⟨rfl, rfl⟩
          | some inode => exact .inr (.inr ⟨inode, rfl, rfl, rfl, rfl⟩)
  | unlink file pid =>
      simp only [acts, serve]
      split
      · exact .inl ⟨rfl, rfl⟩
      · rename_i hsome
        exact .inr ⟨rfl, hsome, rfl⟩
  | openSource => rfl
  | close descriptor => rfl
  | scanState => exact ⟨rfl, .inr rfl⟩
  | fsync inode => rfl
  | syncDirectory => rfl

/-! ## Reading and writing -/

theorem run_readLoop {descriptor : Descriptor} {expected : Nat} {bytes : Bytes}
    (hexpected : expected = (files.content source descriptor).length)
    (hsofar : bytes <+: files.content source descriptor) :
    Program.run (serve source chunk) (readLoop descriptor expected bytes) files =
      (some (files.content source descriptor), files) := by
  rw [readLoop]
  split
  · rename_i hlt
    obtain ⟨rest, hrest⟩ := hsofar
    have hlength : bytes.length + rest.length = expected := by
      rw [hexpected, ← hrest, List.length_append]
    have hread : ((serve source chunk (.read descriptor bytes.length (expected - bytes.length))
        files).1).map Subtype.val = some (((files.content source descriptor).drop bytes.length).take
          (min (expected - bytes.length) (chunk + 1))) := rfl
    rw [← hrest, List.drop_left] at hread
    rw [Program.run_call]
    rcases hanswer : (serve source chunk (.read descriptor bytes.length (expected - bytes.length))
        files).1 with _ | ⟨_ | ⟨byte, more⟩, hcount⟩
    · rw [hanswer] at hread
      cases hread
    · rw [hanswer] at hread
      have hnil := congrArg List.length (Option.some.inj hread)
      rw [List.length_nil, List.length_take] at hnil
      omega
    · rw [hanswer] at hread
      have hmore : byte :: more = rest.take (min (expected - bytes.length) (chunk + 1)) :=
        Option.some.inj hread
      refine run_readLoop hexpected ?_
      rw [← hrest, hmore]
      exact (List.prefix_append_right_inj bytes).mpr (List.take_prefix _ _)
  · rename_i hend
    rw [hsofar.eq_of_length_le (by omega)]
    rfl
termination_by expected - bytes.length
decreasing_by
  rw [List.length_append, List.length_cons]
  omega

/-- A published file is read. -/
theorem run_readOwnedFile {content : Bytes} {capacity : Nat}
    (hholds : files.holds file = some content) (hcapacity : content.length ≤ capacity) :
    Program.run (serve source chunk) (readOwnedFile file capacity) files = (.ok content, files) := by
  obtain ⟨inode, hentry, rfl⟩ := Option.map_eq_some_iff.mp hholds
  have hopen : serve source chunk (.openManaged file) files = (.inode inode, files) := by
    simp only [serve, hentry]
  have hsize : Status.ownedSize capacity (some ⟨true, true, true, (files.contents inode).length⟩) =
      some (files.contents inode).length := by
    rw [Status.ownedSize, if_pos ⟨rfl, rfl, rfl, Int.natCast_nonneg _, Int.ofNat_le.mpr hcapacity⟩]
    rfl
  have hstat : serve source chunk (.fstat (.inode inode)) files =
      (some ⟨true, true, true, (files.contents inode).length⟩, files) := rfl
  simp only [readOwnedFile, Program.request_bind, Program.run_call, hopen, hstat, hsize]
  have hloop : Program.run (serve source chunk)
      (readLoop (.inode inode) (files.contents inode).length []) files =
        (some (files.contents inode), files) := run_readLoop rfl List.nil_prefix
  rw [Program.run_bind, hloop]
  have htrailing : ((serve source chunk (.read (.inode inode) (files.contents inode).length 1)
      files).1).map Subtype.val = some [] := by
    show some (((files.contents inode).drop (files.contents inode).length).take _) = some []
    rw [List.drop_length, List.take_nil]
  exact congrArg (fun task => Program.run (serve source chunk) task files) (if_pos ⟨rfl, htrailing⟩)

theorem run_readOwnedFile_absent {capacity : Nat} (hholds : files.holds file = none) :
    Program.run (serve source chunk) (readOwnedFile file capacity) files =
      (.error .notInitialized, files) := by
  have hentry := Option.map_eq_none_iff.mp hholds
  have hopen : serve source chunk (.openManaged file) files = (.absent, files) := by
    simp only [serve, hentry]
  rw [readOwnedFile, Program.request_bind, Program.run_call, hopen]
  rfl

theorem run_readSourceImage {capacity : Nat} (hnonempty : source ≠ [])
    (hcapacity : source.length ≤ capacity) :
    Program.run (serve source chunk) (readSourceImage capacity) files = (.ok source, files) := by
  have hpos := List.length_pos_of_ne_nil hnonempty
  have hsize : Status.sourceSize capacity (some ⟨true, true, true, source.length⟩) =
      some source.length := by
    rw [Status.sourceSize, if_pos ⟨rfl, Int.natCast_pos.mpr hpos, Int.ofNat_le.mpr hcapacity⟩]
    rfl
  have hstat : serve source chunk (.fstat .source) files =
      (some ⟨true, true, true, source.length⟩, files) := rfl
  have hopen : serve source chunk .openSource files = (true, files) := rfl
  simp only [readSourceImage, Program.request_bind, Program.run_call, hopen, reduceCtorEq, if_false,
    hstat, hsize]
  have hloop : Program.run (serve source chunk) (readLoop .source source.length []) files =
      (some source, files) := run_readLoop rfl List.nil_prefix
  rw [Program.run_bind, hloop]
  rfl

/-- The file holds these bytes. -/
def Files.put (files : Files) (inode : Nat) (bytes : Bytes) : Files :=
  { files with contents := Function.update files.contents inode bytes }

theorem Files.put_put (files : Files) (inode : Nat) (bytes bytes' : Bytes) :
    (files.put inode bytes).put inode bytes' = files.put inode bytes' := by
  rw [put, put, Function.update_idem]
  rfl

theorem run_writeLoop {files : Files} {inode : Nat} {done rest : Bytes}
    (hdone : files.contents inode = done) :
    Program.run (serve source chunk) (writeLoop inode done.length rest) files =
      (true, files.put inode (done ++ rest)) := by
  rw [writeLoop]
  split
  · rename_i hnil
    subst hnil
    rw [List.append_nil, ← hdone, Files.put, Function.update_eq_self]
    rfl
  · rename_i hnil
    have hpos := List.length_pos_of_ne_nil hnil
    obtain ⟨count, hcount⟩ : ∃ count, min rest.length (chunk + 1) = count + 1 :=
      Nat.exists_eq_succ_of_ne_zero (by omega)
    have hle : count + 1 ≤ rest.length := by omega
    have hwritten : files.write inode done.length (rest.take (count + 1)) =
        files.put inode (done ++ rest.take (count + 1)) := by
      rw [Files.write, hdone, overwrite_end, Files.put]
    have hanswer : serve source chunk (.write inode done.length rest) files =
        (some ⟨count + 1, hle⟩, files.put inode (done ++ rest.take (count + 1))) := by
      simp only [serve, hcount, hwritten]
    -- what is left is written behind it
    have hself : (files.put inode (done ++ rest.take (count + 1))).contents inode =
        done ++ rest.take (count + 1) := Function.update_self ..
    have hnext := @run_writeLoop _ inode _ (rest.drop (count + 1)) hself
    rw [List.append_assoc, List.take_append_drop, List.length_append, List.length_take,
      Nat.min_eq_left hle, Files.put_put] at hnext
    rw [Program.run_call, hanswer]
    exact hnext
termination_by rest.length
decreasing_by
  rw [List.length_drop]
  omega

/-- The file is published with these bytes, in a new inode. -/
def Files.publish (files : Files) (file : File) (bytes : Bytes) : Files :=
  { files with
    entries := Function.update files.entries (.managed file) (some files.next)
    contents := Function.update files.contents files.next bytes
    next := files.next + 1 }

theorem Files.publish_holds (files : Files) (file : File) (bytes : Bytes) :
    (files.publish file bytes).holds file = some bytes := by
  have hentry : (files.publish file bytes).entries (.managed file) = some files.next :=
    Function.update_self ..
  rw [Files.holds, hentry, Option.map_some]
  exact congrArg some (Function.update_self ..)

/-- Every entry is of a file that was made. -/
def Files.Allocated (files : Files) : Prop :=
  ∀ name inode, files.entries name = some inode → inode < files.next

theorem Files.publish_allocated (h : files.Allocated) (bytes : Bytes) :
    (files.publish file bytes).Allocated := by
  intro name inode hentry
  show inode < files.next + 1
  by_cases hname : name = .managed file
  · subst hname
    obtain rfl := Option.some.inj ((Files.enter_self (some files.next)).symm.trans hentry)
    omega
  · have hlt := h name inode ((Files.enter_ne hname (some files.next)).symm.trans hentry)
    omega

theorem Files.publish_holds_ne (h : files.Allocated) {other : File} (hother : other ≠ file)
    (bytes : Bytes) : (files.publish file bytes).holds other = files.holds other := by
  have hentry : (files.publish file bytes).entries (.managed other) =
      files.entries (.managed other) := Function.update_of_ne (by simpa using hother) ..
  rw [Files.holds, Files.holds, hentry]
  cases hsome : files.entries (.managed other) with
  | none => rfl
  | some inode =>
      have hlt := h _ _ hsome
      exact congrArg some (Function.update_of_ne (by omega) ..)

theorem Files.publish_temporary (files : Files) (file : File) (bytes : Bytes) (other : File)
    (pid : Nat) : (files.publish file bytes).entries (.temporary other pid) =
      files.entries (.temporary other pid) :=
  Files.enter_ne (temporary_ne_managed file other pid) (some files.next)

theorem run_writeNewFile {bytes : Bytes} (hfits : temporaryLength paths file pid < pathMax)
    (hfree : files.entries (.temporary file pid) = none) (hnone : files.holds file = none) :
    Program.run (serve source chunk) (writeNewFile paths pid file bytes) files =
      (.ok (), files.publish file bytes) := by
  have hcreate : serve source chunk (.create file pid) files =
      (some files.next, files.create (.temporary file pid)) := by
    simp only [serve, if_pos hfree]
  have hempty : (files.create (.temporary file pid)).contents files.next = [] :=
    Function.update_self ..
  have hwrite := @run_writeLoop source chunk _ files.next [] bytes hempty
  rw [List.nil_append] at hwrite
  -- the draft, and its second name
  have hdraft : ((files.create (.temporary file pid)).put files.next bytes).entries
      (.temporary file pid) = some files.next := Files.create_self
  have hfree' : ((files.create (.temporary file pid)).put files.next bytes).entries
      (.managed file) = none :=
    (Files.create_ne (managed_ne_temporary file file pid)).trans (Option.map_eq_none_iff.mp hnone)
  have hlink : serve source chunk (.link file pid)
      ((files.create (.temporary file pid)).put files.next bytes) =
        (.done, ((files.create (.temporary file pid)).put files.next bytes).enter
          (.managed file) (some files.next)) := by
    simp only [serve, hfree', hdraft]
  have hdraft' : (((files.create (.temporary file pid)).put files.next bytes).enter
      (.managed file) (some files.next)).entries (.temporary file pid) ≠ none := by
    rw [Files.enter_ne (temporary_ne_managed file file pid), hdraft]
    exact nofun
  have hfree'' : Function.update files.entries (.temporary file pid) none = files.entries := by
    rw [← hfree, Function.update_eq_self]
  have hunlink : serve source chunk (.unlink file pid)
      (((files.create (.temporary file pid)).put files.next bytes).enter
        (.managed file) (some files.next)) = (true, files.publish file bytes) := by
    simp only [serve, if_neg hdraft']
    simp only [Files.enter, Files.put, Files.create, Files.publish, Function.update_idem]
    rw [Function.update_comm (managed_ne_temporary file file pid), Function.update_idem, hfree'']
  rw [writeNewFile, if_neg (by omega), Program.request_bind, Program.run_call, hcreate]
  show Program.run _ (writeLoop files.next 0 bytes >>= _) (files.create _) = _
  have hwrite : Program.run (serve source chunk) (writeLoop files.next 0 bytes)
      (files.create (.temporary file pid)) =
        (true, (files.create (.temporary file pid)).put files.next bytes) := hwrite
  rw [Program.run_bind, hwrite]
  show Program.run _ (request (Call.link file pid) >>= _)
    ((files.create (.temporary file pid)).put files.next bytes) = _
  rw [Program.request_bind, Program.run_call, hlink]
  show Program.run _ (request (Call.unlink file pid) >>= _)
    (((files.create (.temporary file pid)).put files.next bytes).enter (.managed file)
      (some files.next)) = _
  rw [Program.request_bind, Program.run_call, hunlink]
  rfl

/-! ## Binding -/

theorem run_require {α : Type} {ok : Prop} [Decidable ok] {reason : WorkspaceResult}
    {next : Unit → Attempt α} (h : ok) :
    Program.run (serve source chunk)
        ((require ok reason : Attempt Unit) >>= next).run files =
      Program.run (serve source chunk) (next ()).run files := by
  have hcheck : require ok reason = .ok () := require_ok.mpr h
  exact run_check_ok hcheck

theorem run_load (hpaths : ∀ file, paths.length file ≠ 0) {binding : Binding}
    (hpinned : files.Pinned binding) :
    Program.run (serve source chunk) (load paths).run files = (.ok binding, files) := by
  obtain ⟨image, himage, hbinds⟩ := hpinned.image
  have hvalid := hpinned.image.valid
  have hsize : image.length ≤ Image.maxSize := by
    rw [hbinds.size]
    exact hvalid.2.2.2
  refine (run_require (⟨hpaths _, hpaths _⟩)).trans ?_
  refine (run_try_ok (run_readOwnedFile hpinned.manifest (by simp))).trans ?_
  refine (run_check_ok (decodeManifest_encode hvalid)).trans ?_
  refine (run_try_ok (run_readOwnedFile himage hsize)).trans ?_
  refine (run_check_ok hbinds.valid).trans ?_
  exact run_require (⟨hbinds.size, rfl⟩)

theorem run_load_absent (hpaths : ∀ file, paths.length file ≠ 0)
    (hnone : files.holds .manifest = none) :
    Program.run (serve source chunk) (load paths).run files = (.error .notInitialized, files) := by
  refine (run_require (⟨hpaths _, hpaths _⟩)).trans ?_
  exact run_try_error (run_readOwnedFile_absent hnone)

theorem run_bindAgain {wanted existing : Binding} (hpinned : files.Pinned existing) :
    Program.run (serve source chunk) (bindAgain source wanted existing).run files =
      if files.holds .image = some source ∧ existing.workflowId = wanted.workflowId then
        (.ok existing, files)
      else (.error .incompatible, files) := by
  obtain ⟨image, himage, hbinds⟩ := hpinned.image
  have hsize : image.length ≤ Image.maxSize := by
    rw [hbinds.size]
    exact hpinned.image.valid.2.2.2
  refine (run_lift_bind (run_readOwnedFile himage hsize)).trans ?_
  rw [himage]
  split
  · rename_i hsame
    obtain ⟨himage, hworkflow⟩ := hsame
    cases himage
    exact run_require (⟨rfl, hworkflow⟩)
  · rename_i hother
    refine run_check_error (if_neg ?_)
    rintro ⟨hsource, hworkflow⟩
    cases hsource
    exact hother ⟨rfl, hworkflow⟩

/-- The published image is the source, or there is none yet and it is published. -/
theorem run_publishImage (hinv : files.Inv) (hfits : temporaryLength paths .image pid < pathMax)
    (hfree : files.entries (.temporary .image pid) = none)
    (hsame : ∀ image, files.holds .image = some image → image = source) :
    ∃ files', Program.run (serve source chunk) (publishImage paths pid source).run files =
        (.ok (), files') ∧ files'.holds .image = some source ∧
          files'.holds .manifest = files.holds .manifest ∧ files'.Allocated ∧
            ∀ file, files'.entries (.temporary file pid) = files.entries (.temporary file pid) := by
  cases himage : files.holds .image with
  | some image =>
      obtain rfl := hsame image himage
      obtain ⟨fingerprint, hvalid⟩ := hinv.image image himage
      obtain ⟨⟨summary, hvalid⟩, -, -⟩ := validateImageBytes_ok.mp hvalid
      refine ⟨files, ?_, himage, rfl, hinv.allocated, fun _ => rfl⟩
      refine (run_lift_bind (run_readOwnedFile himage (imageValidate_length hvalid).2)).trans ?_
      show Program.run _ (monadLift (require (image = image) WorkspaceResult.incompatible) :
        Attempt Unit).run files = _
      rw [require, if_pos rfl]
      rfl
  | none =>
      refine ⟨files.publish .image source, ?_, files.publish_holds .image source,
        files.publish_holds_ne hinv.allocated (by decide : File.manifest ≠ .image) source,
        files.publish_allocated hinv.allocated source, fun file => files.publish_temporary ..⟩
      refine (run_lift_bind (run_readOwnedFile_absent himage)).trans ?_
      exact run_writeNewFile hfits hfree himage

/-- The workspace is bound to the binding and these bytes, or a bind of them may still be made: there
is no manifest and no durable state, and no image but this one. -/
def Files.Takes (files : Files) (source : Bytes) (wanted : Binding) : Prop :=
  (files.holds .manifest = some (encodeManifest wanted) ∧ files.holds .image = some source) ∨
    (files.holds .manifest = none ∧ files.occupied = false ∧
      ∀ image, files.holds .image = some image → image = source)

theorem run_scanState : Program.run (serve source chunk) requireEmptyState files =
    (if files.occupied then .error .incompatible else .ok (), files) := by
  cases hoccupied : files.occupied <;> simp [requireEmptyState, serve, hoccupied]

theorem run_bindNew (hinv : files.Inv) (hfits : ∀ file, temporaryLength paths file pid < pathMax)
    (hfree : ∀ file, files.entries (.temporary file pid) = none) (wanted : Binding)
    (hnone : files.holds .manifest = none) (hempty : files.occupied = false)
    (hsame : ∀ image, files.holds .image = some image → image = source) :
    ∃ files', Program.run (serve source chunk) (bindNew paths pid source wanted).run files =
        (.ok wanted, files') ∧ files'.holds .image = some source ∧
          files'.holds .manifest = some (encodeManifest wanted) := by
  have hentry := Option.map_eq_none_iff.mp hnone
  have hlstat : serve source chunk (.lstat .manifest) files = (.absent, files) := by
    simp only [serve, hentry]
  have hscan : Program.run (serve source chunk) requireEmptyState files = (.ok (), files) := by
    rw [run_scanState, hempty]
    rfl
  obtain ⟨files₁, hpublish, himage, hmanifest, hallocated, htemporary⟩ :=
    @run_publishImage _ chunk _ _ _ hinv (hfits .image) (hfree .image) hsame
  have hwrite := @run_writeNewFile source chunk pid paths .manifest files₁
    (encodeManifest wanted) (hfits .manifest) ((htemporary .manifest).trans (hfree .manifest))
    (hmanifest.trans hnone)
  have hkept := files₁.publish_holds_ne hallocated (show File.image ≠ .manifest from nofun)
    (encodeManifest wanted)
  refine ⟨files₁.publish .manifest (encodeManifest wanted), ?_, hkept.trans himage,
    files₁.publish_holds .manifest _⟩
  refine (run_lift_bind (by rw [Program.request, Program.run_call, hlstat])).trans ?_
  refine (run_require nofun).trans ?_
  refine (run_require rfl).trans ?_
  refine (run_try_ok hscan).trans ?_
  refine (run_try_ok hpublish).trans ?_
  exact run_try_ok hwrite

theorem run_bindNew_refused (hinv : files.Inv) (wanted : Binding)
    (hnone : files.holds .manifest = none) (hother : files.occupied = true ∨
      ∃ image, files.holds .image = some image ∧ image ≠ source) :
    Program.run (serve source chunk) (bindNew paths pid source wanted).run files =
      (.error .incompatible, files) := by
  have hentry := Option.map_eq_none_iff.mp hnone
  have hlstat : serve source chunk (.lstat .manifest) files = (.absent, files) := by
    simp only [serve, hentry]
  refine (run_lift_bind (by rw [Program.request, Program.run_call, hlstat])).trans ?_
  refine (run_require nofun).trans ?_
  refine (run_require rfl).trans ?_
  cases hoccupied : files.occupied with
  | true =>
      have hscan : Program.run (serve source chunk) requireEmptyState files =
          (.error .incompatible, files) := by
        rw [run_scanState, hoccupied]
        rfl
      exact run_try_error hscan
  | false =>
      have hscan : Program.run (serve source chunk) requireEmptyState files = (.ok (), files) := by
        rw [run_scanState, hoccupied]
        rfl
      refine (run_try_ok hscan).trans ?_
      rcases hother with hother | ⟨image, himage, hother⟩
      · rw [hoccupied] at hother
        cases hother
      · -- an image of other bytes is left alone
        obtain ⟨fingerprint, hvalid⟩ := hinv.image image himage
        obtain ⟨⟨summary, hvalid⟩, -, -⟩ := validateImageBytes_ok.mp hvalid
        refine run_try_error ?_
        refine (run_lift_bind (run_readOwnedFile himage (imageValidate_length hvalid).2)).trans ?_
        show Program.run _ (monadLift (require (image = source) WorkspaceResult.incompatible) :
          Attempt Unit).run files = _
        rw [require, if_neg hother]
        rfl

end Serve

/-! ## Repeating a bind -/

theorem imageFingerprint_ne_zero {image : Bytes} (h : image ≠ []) :
    Journal.imageFingerprint image ≠ 0 := by
  rw [Journal.imageFingerprint, if_neg h]
  dsimp only
  split
  · decide
  · assumption

theorem validateImageBytes_of_valid {image : Bytes}
    (h : (Image.imageValidate image).toOption.isSome = true) :
    validateImageBytes image = .ok (Journal.imageFingerprint image) := by
  cases hvalid : Image.imageValidate image with
  | error reason =>
      rw [hvalid] at h
      cases h
  | ok summary =>
      have hheader := (imageValidate_length hvalid).1
      have hpos : 0 < Image.headerSize := by decide
      refine validateImageBytes_ok.mpr ⟨⟨summary, hvalid⟩, imageFingerprint_ne_zero ?_, rfl⟩
      exact List.ne_nil_of_length_pos (by omega)

/-- The binding of a workflow to the bytes of an image. -/
def bindingOf (workflowId : UInt32) (image : Bytes) : Binding where
  workflowId
  imageFingerprint := Journal.imageFingerprint image
  imageSize := UInt64.ofNat image.length

/-- An image has one binding to a workflow. -/
theorem Binds.eq_bindingOf {binding : Binding} {image : Bytes} (h : Binds binding image) :
    binding = bindingOf binding.workflowId image := by
  obtain ⟨-, -, hfingerprint⟩ := validateImageBytes_ok.mp h.valid
  have hsize : binding.imageSize = UInt64.ofNat image.length := by
    rw [h.size, UInt64.ofNat_toNat]
  obtain ⟨workflowId, imageFingerprint, imageSize⟩ := binding
  simp only at hfingerprint hsize
  rw [hfingerprint, hsize, bindingOf]

section Again

variable {paths : Paths} {files : Files} {pid chunk : Nat} {workflowId : UInt32} {source : Bytes}
  {acceptor : Option (Bytes → Bool)}

/-- The checks of the source image are behind, and the workspace was looked at. -/
theorem run_bindChecked {loaded : Except WorkspaceResult Binding}
    (hbinds : Binds (bindingOf workflowId source) source)
    (haccepts : ∀ accepts ∈ acceptor, accepts source = true)
    (hload : Program.run (serve source chunk) (load paths).run files = (loaded, files)) :
    Program.run (serve source chunk) (bindChecked paths pid workflowId acceptor).run files =
      Program.run (serve source chunk)
        (bindLoaded paths pid source (bindingOf workflowId source) loaded).run files := by
  obtain ⟨-, -, hempty, hlarge⟩ := hbinds.binding_valid
  have hsize : source.length ≤ Image.maxSize := hbinds.size ▸ hlarge
  have hnonempty : source ≠ [] := by
    rintro rfl
    exact hempty rfl
  refine (run_require hbinds.workflow).trans ?_
  refine (run_try_ok (run_readSourceImage hnonempty hsize)).trans ?_
  refine (run_require haccepts).trans ?_
  refine (run_check_ok hbinds.valid).trans ?_
  exact run_lift_bind hload

/-- The workspace is bound. -/
theorem run_bind_bound (hpaths : ∀ file, paths.length file ≠ 0)
    (hbinds : Binds (bindingOf workflowId source) source)
    (haccepts : ∀ accepts ∈ acceptor, accepts source = true) {existing : Binding}
    (hpinned : files.Pinned existing) :
    (files.Takes source (bindingOf workflowId source) →
      Program.run (serve source chunk) (bindChecked paths pid workflowId acceptor).run files =
        (.ok (bindingOf workflowId source), files)) ∧
      (¬ files.Takes source (bindingOf workflowId source) →
        Program.run (serve source chunk) (bindChecked paths pid workflowId acceptor).run files =
          (.error .incompatible, files)) := by
  have hrun := @run_bindChecked _ _ pid _ _ _ _ _ hbinds haccepts
    (@run_load source chunk _ _ hpaths _ hpinned)
  constructor
  · rintro (⟨hmanifest, himage⟩ | ⟨hnone, -, -⟩)
    · -- the manifest names one binding
      have hsame : existing = bindingOf workflowId source := by
        have hdecoded := decodeManifest_encode hpinned.image.valid
        rw [Option.some.inj (hpinned.manifest.symm.trans hmanifest),
          decodeManifest_encode hbinds.binding_valid] at hdecoded
        exact (Except.ok.inj hdecoded).symm
      subst hsame
      exact hrun.trans ((run_bindAgain hpinned).trans (if_pos ⟨himage, rfl⟩))
    · rw [hpinned.manifest] at hnone
      cases hnone
  · intro hother
    refine hrun.trans ((run_bindAgain hpinned).trans (if_neg ?_))
    rintro ⟨himage, hworkflow⟩
    have hworkflow : existing.workflowId = workflowId := hworkflow
    have hsame := (hpinned.image.binds himage).eq_bindingOf
    rw [hworkflow] at hsame
    exact hother (.inl ⟨hsame ▸ hpinned.manifest, himage⟩)

/-- The workspace is not bound. -/
theorem run_bind_unbound (hpaths : ∀ file, paths.length file ≠ 0)
    (hfits : ∀ file, temporaryLength paths file pid < pathMax)
    (hfree : ∀ file, files.entries (.temporary file pid) = none)
    (hbinds : Binds (bindingOf workflowId source) source)
    (haccepts : ∀ accepts ∈ acceptor, accepts source = true) (hinv : files.Inv)
    (hnone : files.holds .manifest = none) :
    (files.Takes source (bindingOf workflowId source) →
      ∃ files', Program.run (serve source chunk) (bindChecked paths pid workflowId acceptor).run
          files = (.ok (bindingOf workflowId source), files') ∧
        files'.holds .image = some source ∧
          files'.holds .manifest = some (encodeManifest (bindingOf workflowId source))) ∧
      (¬ files.Takes source (bindingOf workflowId source) →
        Program.run (serve source chunk) (bindChecked paths pid workflowId acceptor).run files =
          (.error .incompatible, files)) := by
  have hrun := @run_bindChecked _ _ pid _ _ _ _ _ hbinds haccepts
    (@run_load_absent source chunk _ _ hpaths hnone)
  constructor
  · rintro (⟨hmanifest, -⟩ | ⟨-, hempty, hsame⟩)
    · rw [hnone] at hmanifest
      cases hmanifest
    · obtain ⟨files', hnew, hholds⟩ :=
        run_bindNew hinv hfits hfree (bindingOf workflowId source) hnone hempty hsame
      exact ⟨files', hrun.trans hnew, hholds⟩
  · intro hother
    refine hrun.trans (run_bindNew_refused hinv _ hnone ?_)
    by_contra hneither
    simp only [not_or, not_exists, not_and, not_not, Bool.not_eq_true] at hneither
    exact hother (.inr ⟨hnone, hneither⟩)

/-- **A bind can be repeated until it gets to its end.** Whatever processes did to the workspace
before, and wherever they were stopped, a bind whose calls succeed ends with the binding of its
workflow and image if the workspace is bound to it or is not bound to anything; otherwise it is
refused, and all files stay as they are. -/
theorem bind_repeated {processes : Processes}
    (h : (Commons.system (rules paths)).Reach processes) (chunk : Nat)
    (hpaths : ∀ file, paths.length file ≠ 0)
    (hfits : ∀ file, temporaryLength paths file pid < pathMax)
    (hfree : ∀ file, processes.shared.entries (.temporary file pid) = none)
    (hworkflow : workflowId ≠ 0) (hvalid : (Image.imageValidate source).toOption.isSome = true)
    (haccepts : ∀ accepts ∈ acceptor, accepts source = true) :
    (processes.shared.Takes source (bindingOf workflowId source) →
      ∃ files', Program.run (serve source chunk) (bindChecked paths pid workflowId acceptor).run
          processes.shared = (.ok (bindingOf workflowId source), files') ∧
        files'.holds .image = some source ∧
          files'.holds .manifest = some (encodeManifest (bindingOf workflowId source))) ∧
      (¬ processes.shared.Takes source (bindingOf workflowId source) →
        Program.run (serve source chunk) (bindChecked paths pid workflowId acceptor).run
          processes.shared = (.error .incompatible, processes.shared)) := by
  have hinv := ((rules_sound paths).held h).inv
  have hbinds : Binds (bindingOf workflowId source) source :=
    binds_wanted hworkflow (validateImageBytes_of_valid hvalid)
  cases hmanifest : processes.shared.holds .manifest with
  | none => exact run_bind_unbound hpaths hfits hfree hbinds haccepts hinv hmanifest
  | some manifest =>
      obtain ⟨existing, rfl, hbound⟩ := hinv.manifest manifest hmanifest
      obtain ⟨htakes, hother⟩ := @run_bind_bound _ _ pid chunk _ _ _ hpaths hbinds haccepts _
        ⟨hmanifest, hbound⟩
      refine ⟨fun h => ⟨processes.shared, htakes h, ?_⟩, hother⟩
      rcases h with ⟨hsame, himage⟩ | ⟨hnone, -⟩
      · exact ⟨himage, hsame⟩
      · rw [hmanifest] at hnone
        cases hnone

end Again

/-! ## A workspace without files -/

def fresh : Processes where
  shared := { entries := fun _ => none, contents := fun _ => [], next := 0, occupied := false }
  live := fun _ => none
  ended := []

theorem reach_fresh (paths : Paths) : (Commons.system (rules paths)).Reach fresh :=
  .init ⟨fun _ => rfl, fun _ => rfl, rfl⟩

def shortPaths : Paths where
  length _ := 20

theorem shortPaths_fit (file : File) : temporaryLength shortPaths file 1 < pathMax := by
  cases file <;> decide

theorem bind_repeated_oneAction : ∃ files',
    Program.run (serve oneAction.bytes 10) (bindChecked shortPaths 1 7 none).run fresh.shared =
        (.ok (bindingOf 7 oneAction.bytes), files') ∧
      files'.holds .image = some oneAction.bytes ∧
        files'.holds .manifest = some (encodeManifest (bindingOf 7 oneAction.bytes)) :=
  (bind_repeated (reach_fresh shortPaths) 10 (fun _ => Nat.succ_ne_zero 19) shortPaths_fit
    (fun _ => rfl) (by decide) oneAction.valid
    (fun _ h => absurd h (Option.not_mem_none _))).1
    (.inr ⟨rfl, rfl, fun _ h => nomatch h⟩)

end Hermas.Workspace
