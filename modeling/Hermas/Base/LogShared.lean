import Hermas.Base.LogFile

/-!
# What is in a log

Under the lock a process knows the file, since nobody else writes. What it acts on is durable then,
whole and under its number, and behind records that were there before. So all that was ever acted
on stays in the file, also when the machine stops, and whoever reads the file reads it.
-/

namespace Hermas.LogFile

open Program (Secure Ends request Terms)

variable {ι ρ σ ε : Type} {format : Format ι ρ σ ε} {disk disk' : Disk ρ} {pid : Nat}

/-! ## The terms of the processes -/

namespace Disk

/-- The durable part of the file begins with records, and those that were acted on are among them,
in their order. -/
structure Good (format : Format ι ρ σ ε) (disk : Disk ρ) : Prop where
  synced : disk.synced ≤ disk.bytes.length
  acted : ∃ bytes next records, bytes <+: disk.bytes ∧ bytes.length ≤ disk.synced ∧
    format.Written format.number bytes next records ∧ disk.acted.Sublist records

/-- What was written and acted on stays so. -/
structure Grows (disk disk' : Disk ρ) : Prop where
  bytes : disk.bytes <+: disk'.bytes
  acted : ∀ record ∈ disk.acted, record ∈ disk'.acted

theorem Grows.refl (disk : Disk ρ) : Grows disk disk := ⟨List.prefix_rfl, fun _ h => h⟩

theorem Grows.trans {disk'' : Disk ρ} (h : Grows disk disk') (h' : Grows disk' disk'') :
    Grows disk disk'' :=
  ⟨h.bytes.trans h'.bytes, fun record hr => h'.acted record (h.acted record hr)⟩

/-- Records that the file consists of. -/
def Shows (format : Format ι ρ σ ε) (bytes : Bytes) (next : UInt64) (known : List ρ) : Prop :=
  ∃ records, format.Written format.number bytes next records ∧ ∀ record ∈ known, record ∈ records

/-- A file of whole records has all that were acted on. -/
theorem Good.sublist (h : disk.Good format) {next : UInt64} {records : List ρ}
    (hwritten : format.Written format.number disk.bytes next records) :
    disk.acted.Sublist records := by
  obtain ⟨bytes, _, front, hbytes, -, hfront, hacted⟩ := h.acted
  -- the records of the durable part are the first ones of the file
  exact hacted.trans (hfront.starts hwritten hbytes).sublist

theorem Good.shows (h : disk.Good format) {known : List ρ}
    (hknown : ∀ record ∈ known, record ∈ disk.acted) {summary : σ}
    (hsize : format.checkSize disk.bytes.length = .ok ())
    (hscan : format.scan disk.bytes = .ok summary) :
    Shows format disk.bytes (format.next summary) known := by
  obtain ⟨records, hwritten⟩ := format.scan_ok hsize hscan
  exact ⟨records, hwritten, fun record hr => (h.sublist hwritten).subset (hknown record hr)⟩

/-- What is good about a file is not up to its lock. -/
theorem Good.relock (h : disk.Good format) (lock : Option Nat) :
    ({ disk with lock } : Disk ρ).Good format := ⟨h.synced, h.acted⟩

theorem Good.extend (h : disk.Good format) (more : Bytes) : (disk.extend more).Good format where
  synced := by
    have := h.synced
    show disk.synced ≤ (disk.bytes ++ more).length
    rw [List.length_append]
    omega
  acted := by
    obtain ⟨bytes, next, records, hbytes, hrest⟩ := h.acted
    exact ⟨bytes, next, records, hbytes.trans (List.prefix_append _ _), hrest⟩

theorem Good.settle (h : disk.Good format) : disk.settle.Good format where
  synced := le_rfl
  acted := by
    obtain ⟨bytes, next, records, hbytes, hlength, hrest⟩ := h.acted
    exact ⟨bytes, next, records, hbytes, hlength.trans h.synced, hrest⟩

/-- The record at the end of a durable file is acted on. -/
theorem Good.act (hsynced : disk.synced = disk.bytes.length) {next : UInt64} {records : List ρ}
    {record : ρ} (hwritten : format.Written format.number disk.bytes next (records ++ [record]))
    (hacted : disk.acted.Sublist records) : (disk.act record).Good format where
  synced := hsynced.le
  acted := ⟨disk.bytes, next, records ++ [record], List.prefix_rfl, hsynced.ge, hwritten,
    hacted.append (List.Sublist.refl [record])⟩

theorem Good.crash (h : disk.Good format) (hcrash : disk.Crashes disk') : disk'.Good format := by
  obtain ⟨hbytes, hdisk⟩ := hcrash
  obtain ⟨bytes, next, records, hfront, hlength, hrest⟩ := h.acted
  have hkept : bytes <+: disk.bytes.take disk.synced := by
    rw [List.prefix_take_iff]
    exact ⟨hfront, hlength⟩
  -- what was durable is left, so the file is at least as long
  have hlong := hbytes.length_le
  rw [List.length_take, Nat.min_eq_left h.synced] at hlong
  rw [hdisk]
  exact ⟨hlong, bytes, next, records, hkept.trans hbytes, hlength, hrest⟩

/-- Unlocking changes nothing but the lock. -/
theorem unlock_eq (disk : Disk ρ) (pid : Nat) :
    ∃ lock, disk.unlock pid = { disk with lock } := by
  unfold unlock
  split
  · exact ⟨none, rfl⟩
  · exact ⟨disk.lock, rfl⟩

theorem Good.unlock (h : disk.Good format) (pid : Nat) : (disk.unlock pid).Good format := by
  obtain ⟨lock, hlock⟩ := disk.unlock_eq pid
  rw [hlock]
  exact h.relock lock

end Disk

/-- The terms of a process: while it has the lock, nobody changes anything. -/
def terms (format : Format ι ρ σ ε) (pid : Nat) : Terms (Disk ρ) where
  inv disk := disk.Good format
  rely disk disk' := disk.Grows disk' ∧ (disk.lock = some pid → disk' = disk)
  guar disk disk' := disk.Grows disk' ∧ ∀ other ≠ pid, disk.lock = some other → disk' = disk
  rely_refl disk := ⟨.refl disk, fun _ => rfl⟩
  rely_trans disk disk' disk'' h h' := by
    refine ⟨h.1.trans h'.1, fun hlock => ?_⟩
    obtain rfl := h.2 hlock
    exact h'.2 hlock

theorem guar_refl (format : Format ι ρ σ ε) (pid : Nat) (disk : Disk ρ) :
    (terms format pid).guar disk disk := ⟨.refl disk, fun _ _ _ => rfl⟩

/-- The process that has the lock may do anything that takes nothing back. -/
theorem guar_locked (hlock : disk.lock = some pid) (hgrows : disk.Grows disk') :
    (terms format pid).guar disk disk' := by
  refine ⟨hgrows, fun other hother hlocked => ?_⟩
  rw [hlock] at hlocked
  exact absurd (Option.some.inj hlocked).symm hother

theorem guar_unlock (format : Format ι ρ σ ε) (pid : Nat) (disk : Disk ρ) :
    (terms format pid).guar disk (disk.unlock pid) := by
  unfold Disk.unlock
  split
  · rename_i hlock
    exact guar_locked hlock ⟨List.prefix_rfl, fun _ h => h⟩
  · exact guar_refl format pid disk

/-! ## Programs -/

/-- A snapshot is what was in the file at one moment, and the process has done nothing to it. -/
theorem secure_snapshot (pid : Nat) (disk : Disk ρ) :
    Secure acts (terms format pid)
      (fun result disk' => (terms format pid).rely disk disk' ∧ ∀ bytes, result = .ok bytes →
        ∃ seen, (terms format pid).rely disk seen ∧ seen.Good format ∧ bytes = seen.bytes ∧
          format.checkSize seen.bytes.length = .ok ())
      format.snapshot disk := by
  refine Secure.look (fun _ _ _ h => h.1) (guar_refl format pid) fun seen hrely hgood status hstatus => ?_
  -- where a call fails, nothing is told
  have hfails : ∀ {disk' : Disk ρ} {reason : ε}, (terms format pid).rely disk disk' →
      Secure acts (terms format pid)
        (fun (result : Except ε Bytes) disk' => (terms format pid).rely disk disk' ∧
          ∀ bytes, result = .ok bytes → ∃ seen, (terms format pid).rely disk seen ∧
            seen.Good format ∧ bytes = seen.bytes ∧
              format.checkSize seen.bytes.length = .ok ()) (pure (.error reason)) disk' :=
    fun hrely _ hrely' _ => ⟨(terms format pid).rely_trans _ _ _ hrely hrely', fun _ h => by cases h⟩
  cases status with
  | none => exact hfails hrely
  | some status =>
    have hsize : status.size = seen.bytes.length := hstatus.2 status rfl
    dsimp only
    split
    · exact hfails hrely
    · rename_i hcheck
      rw [hsize] at hcheck
      split
      · rename_i hempty
        rw [hsize, List.length_eq_zero_iff] at hempty
        refine fun _ hrely' _ => ⟨(terms format pid).rely_trans _ _ _ hrely hrely', fun bytes h => ?_⟩
        cases h
        exact ⟨seen, hrely, hgood, hempty.symm, hcheck⟩
      · refine Secure.look (fun _ _ _ h => h.1) (guar_refl format pid)
          fun later hrely₂ _ mapping hmapping => ?_
        have hrely₃ := (terms format pid).rely_trans _ _ _ hrely hrely₂
        cases mapping with
        | none => exact hfails hrely₃
        | some mapped =>
          refine fun _ hrely' _ => ⟨(terms format pid).rely_trans _ _ _ hrely₃ hrely',
            fun bytes h => ?_⟩
          cases h
          -- the file may have grown since its size was asked for
          have hmapped : mapped = later.bytes.take status.size := hmapping.2 mapped rfl
          rw [hsize, ← List.prefix_iff_eq_take.mp hrely₂.1.bytes] at hmapped
          exact ⟨seen, hrely, hgood, hmapped, hcheck⟩

theorem secure_unlock {α : Type} {post : α → Disk ρ → Prop} {next : Unit → Task ρ α}
    (h : ∀ disk', (∀ record ∈ disk.acted, record ∈ disk'.acted) →
      Secure acts (terms format pid) post (next ()) disk') :
    Secure acts (terms format pid) post (request (Call.unlock pid) >>= next) disk := by
  intro disk₁ hrely hgood _ disk₂ hacts
  obtain rfl : disk₂ = disk₁.unlock pid := hacts
  have hguar := guar_unlock format pid disk₁
  exact ⟨hguar, hgood.unlock pid, h _ fun record hr => hguar.1.acted _ (hrely.1.acted _ hr)⟩

/-- The process has the lock and knows what is in the file. -/
structure Holds (format : Format ι ρ σ ε) (pid : Nat) (next : UInt64) (disk : Disk ρ) : Prop where
  lock : disk.lock = some pid
  written : ∃ records, format.Written format.number disk.bytes next records

/-- What an open tells is what is in the file, with all that was acted on before. -/
theorem secure_openLog {known : List ρ} (hknown : ∀ record ∈ known, record ∈ disk.acted) :
    Secure acts (terms format pid)
      (Ends (fun summary disk => Holds format pid (format.next summary) disk ∧
        ∃ bytes, format.scan bytes = .ok summary ∧
          Disk.Shows format bytes (format.next summary) known) (fun _ => True))
      (format.openLog pid) disk := by
  have hfails : ∀ {disk : Disk ρ} {reason : ε}, Secure acts (terms format pid)
      (Ends (fun summary disk => Holds format pid (format.next summary) disk ∧
        ∃ bytes, format.scan bytes = .ok summary ∧
          Disk.Shows format bytes (format.next summary) known) (fun _ => True))
      (pure (.error reason)) disk := fun _ _ _ => trivial
  refine Secure.look (fun _ _ _ h => h) (guar_refl format pid) fun disk₁ hrely₁ _ opened _ => ?_
  split
  · exact hfails
  refine Secure.request_bind fun disk₂ hrely₂ hgood₂ locked disk₃ hacts => ?_
  rcases hacts with ⟨rfl, rfl⟩ | ⟨rfl, hfree, rfl⟩
  · exact ⟨guar_refl format pid _, hgood₂,
      Secure.look (fun _ _ _ h => h) (guar_refl format pid) fun _ _ _ _ _ => hfails⟩
  -- the lock was free, so nobody relies on having it
  have hguar : (terms format pid).guar disk₂ { disk₂ with lock := some pid } := by
    refine ⟨⟨List.prefix_rfl, fun _ h => h⟩, fun other _ hother => ?_⟩
    rw [hfree] at hother
    cases hother
  refine ⟨hguar, hgood₂.relock _, ?_⟩
  have hknown₂ : ∀ record ∈ known, record ∈ disk₂.acted := fun record hr =>
    hrely₂.1.acted _ (hrely₁.1.acted _ (hknown record hr))
  refine Secure.look (fun _ _ _ h => h.1) (guar_refl format pid) fun disk₄ hrely₄ _ status _ => ?_
  -- from now on the file is what it is
  obtain rfl := hrely₄.2 rfl
  split
  · refine Secure.bind (secure_snapshot pid _) fun result disk₅ hgood₅ hresult => ?_
    obtain ⟨hrely₅, hseen⟩ := hresult
    obtain rfl := hrely₅.2 rfl
    split
    · exact secure_unlock fun _ _ => hfails
    · rename_i summary hscan
      split
      · exact secure_unlock fun _ _ => hfails
      · cases result with
        | error reason => cases hscan
        | ok bytes =>
          obtain ⟨seen, hrely₆, -, rfl, hsize⟩ := hseen bytes rfl
          obtain rfl := hrely₆.2 rfl
          have hscan : format.scan disk₂.bytes = .ok summary := hscan
          obtain ⟨records, hwritten⟩ := format.scan_ok hsize hscan
          refine fun _ hrely' _ => ?_
          obtain rfl := hrely'.2 rfl
          exact ⟨⟨rfl, records, hwritten⟩, disk₂.bytes, hscan, hgood₂.shows hknown₂ hsize hscan⟩
  · exact secure_unlock fun _ _ => hfails

theorem secure_writeLoop (bytes : Bytes) {disk : Disk ρ} (hlock : disk.lock = some pid) :
    Secure acts (terms format pid)
      (fun written disk' => written = true → disk' = disk.extend bytes) (writeLoop bytes) disk := by
  rw [writeLoop]
  split
  · rename_i hnil
    subst hnil
    intro disk₁ hrely _ _
    obtain rfl := hrely.2 hlock
    simp [Disk.extend]
  · intro disk₁ hrely hgood answer disk₂ hacts
    obtain rfl := hrely.2 hlock
    have hfails : ∀ {disk₂ : Disk ρ}, Secure acts (terms format pid)
        (fun written disk' => written = true → disk' = disk₁.extend bytes)
        (.done false : Task ρ Bool) disk₂ := fun _ _ _ h => by cases h
    rcases answer with _ | ⟨_ | count, hcount⟩
    · -- the write failed
      obtain rfl : disk₂ = disk₁ := hacts
      exact ⟨guar_refl format pid _, hgood, hfails⟩
    · -- it wrote nothing, which ends the loop as well
      obtain rfl : disk₂ = disk₁.extend (bytes.take 0) := hacts
      exact ⟨guar_locked hlock ⟨List.prefix_append _ _, fun _ h => h⟩, hgood.extend _, hfails⟩
    · -- it wrote a part, and the loop writes the rest behind it
      obtain rfl : disk₂ = disk₁.extend (bytes.take (count + 1)) := hacts
      refine ⟨guar_locked hlock ⟨List.prefix_append _ _, fun _ h => h⟩, hgood.extend _, ?_⟩
      have hlock₂ : (disk₁.extend (bytes.take (count + 1))).lock = some pid := hlock
      have hnext := secure_writeLoop (bytes.drop (count + 1)) hlock₂
      refine hnext.mono fun written disk' _ h hwritten => ?_
      rw [h hwritten]
      simp only [Disk.extend, List.append_assoc, List.take_append_drop]
termination_by bytes.length
decreasing_by
  rw [List.length_drop]
  omega

theorem secure_writeSynchronized (bytes : Bytes) (hlock : disk.lock = some pid) :
    Secure acts (terms format pid)
      (fun written disk' => written = true → disk' = (disk.extend bytes).settle)
      (writeSynchronized bytes) disk := by
  refine Secure.bind (secure_writeLoop bytes hlock) fun written disk₁ hgood hwritten => ?_
  split
  · rename_i hdone
    obtain rfl := hwritten hdone
    intro disk₂ hrely hgood₂ synced disk₃ hacts
    obtain rfl := hrely.2 hlock
    rcases hacts with ⟨rfl, rfl⟩ | ⟨rfl, rfl⟩
    · exact ⟨guar_refl format pid _, hgood₂, fun _ _ _ h => by cases h⟩
    · refine ⟨guar_locked hlock ⟨List.prefix_rfl, fun _ h => h⟩, hgood₂.settle, ?_⟩
      intro disk₄ hrely₄ _ _
      exact hrely₄.2 hlock
  · exact fun _ _ _ h => by cases h

/-! ## Sessions -/

/-- A process has gone on after a failed write. -/
def Spoiled (disk : Disk ρ) : Prop := disk.spoiled = true

theorem acts_spoiled (c : Call ρ) (disk : Disk ρ) (answer : Answer c) (disk' : Disk ρ)
    (hspoiled : Spoiled disk) (hacts : acts c disk answer disk') : Spoiled disk' := by
  have hspoiled : disk.spoiled = true := hspoiled
  show disk'.spoiled = true
  cases c with
  | openFile => cases hacts; exact hspoiled
  | lock pid => rcases hacts with ⟨-, rfl⟩ | ⟨-, -, rfl⟩ <;> exact hspoiled
  | fstat => cases hacts.1; exact hspoiled
  | map count => cases hacts.1; exact hspoiled
  | write bytes =>
      cases answer with
      | none => cases hacts; exact hspoiled
      | some count => cases hacts; exact hspoiled
  | sync => rcases hacts with ⟨-, rfl⟩ | ⟨-, rfl⟩ <;> exact hspoiled
  | close => cases hacts; exact hspoiled
  | unlock pid =>
      obtain ⟨lock, hlock⟩ := disk.unlock_eq pid
      rw [show disk' = disk.unlock pid from hacts, hlock]
      exact hspoiled
  | act record => cases hacts; exact hspoiled
  | goOn => cases hacts; rfl

/-- What a session reports: a record that was appended was acted on, and whoever looks sees whole
records, with those among them that were known or appended before. -/
def Tells (format : Format ι ρ σ ε) (known : List ρ) : List (Report ρ ε) → Disk ρ → Prop
  | [], _ => True
  | .appended record :: reports, disk =>
      record ∈ disk.acted ∧ Tells format (record :: known) reports disk
  | .refused _ :: reports, disk => Tells format known reports disk
  | .looked (.ok bytes) :: reports, disk =>
      (∃ next, Disk.Shows format bytes next known) ∧ Tells format known reports disk
  | .looked (.error _) :: reports, disk => Tells format known reports disk

theorem Tells.lasts (hacted : ∀ record ∈ disk.acted, record ∈ disk'.acted) :
    ∀ {reports : List (Report ρ ε)} {known : List ρ}, Tells format known reports disk →
      Tells format known reports disk' := by
  intro reports
  induction reports with
  | nil => exact fun _ => trivial
  | cons report reports ih =>
      intro known h
      cases report with
      | appended record => exact ⟨hacted record h.1, ih h.2⟩
      | refused reason =>
          have h : Tells format known reports disk := h
          exact ih h
      | looked result =>
          cases result with
          | ok bytes => exact ⟨h.1, ih h.2⟩
          | error reason =>
              have h : Tells format known reports disk := h
              exact ih h

theorem Tells.appended {record : ρ} : ∀ {reports : List (Report ρ ε)} {known : List ρ},
    Tells format known reports disk → .appended record ∈ reports → record ∈ disk.acted := by
  intro reports
  induction reports with
  | nil =>
      intro known _ hmem
      exact absurd hmem List.not_mem_nil
  | cons report reports ih =>
      intro known h hmem
      rcases List.mem_cons.mp hmem with rfl | hlater
      · exact h.1
      · cases report with
        | appended other => exact ih h.2 hlater
        | refused reason => exact ih h hlater
        | looked result =>
            cases result with
            | ok bytes => exact ih h.2 hlater
            | error reason => exact ih h hlater

/-- Whoever looks sees what was known and what was appended before. -/
theorem Tells.looked {bytes : Bytes} {after : List (Report ρ ε)} :
    ∀ {before : List (Report ρ ε)} {known : List ρ},
      Tells format known (before ++ .looked (.ok bytes) :: after) disk →
        ∃ next records, format.Written format.number bytes next records ∧
          ∀ record, record ∈ known ∨ .appended record ∈ before → record ∈ records := by
  intro before
  induction before with
  | nil =>
      intro known h
      obtain ⟨next, records, hwritten, hknown⟩ := h.1
      refine ⟨next, records, hwritten, fun record hrecord => hknown record ?_⟩
      exact hrecord.resolve_right List.not_mem_nil
  | cons report before ih =>
      intro known h
      -- what a report tells is known to those behind it
      have hlater : ∃ known', (∀ record, record ∈ known ∨ .appended record ∈ report :: before →
          record ∈ known' ∨ .appended record ∈ before) ∧
          Tells format known' (before ++ .looked (.ok bytes) :: after) disk := by
        cases report with
        | appended other =>
            refine ⟨other :: known, fun record hrecord => ?_, h.2⟩
            rcases hrecord with hrecord | hrecord
            · exact .inl (List.mem_cons_of_mem _ hrecord)
            · rcases List.mem_cons.mp hrecord with hrecord | hrecord
              · cases hrecord
                exact .inl List.mem_cons_self
              · exact .inr hrecord
        | refused reason =>
            refine ⟨known, fun record hrecord => hrecord.imp_right fun hrecord => ?_, h⟩
            exact (List.mem_cons.mp hrecord).resolve_left fun hsame => by cases hsame
        | looked result =>
            refine ⟨known, fun record hrecord => hrecord.imp_right fun hrecord => ?_, ?_⟩
            · exact (List.mem_cons.mp hrecord).resolve_left fun hsame => by cases hsame
            · cases result with
              | ok seen => exact h.2
              | error reason => exact h
      obtain ⟨known', hknown, hrest⟩ := hlater
      obtain ⟨next, records, hwritten, hall⟩ := ih hrest
      exact ⟨next, records, hwritten, fun record hrecord => hall record (hknown record hrecord)⟩

/-- The terms as long as nobody has gone on after a failed write. -/
def fullTerms (format : Format ι ρ σ ε) (pid : Nat) : Terms (Disk ρ) :=
  (terms format pid).barring Spoiled

/-- Spoiled or not, what was acted on is not forgotten. -/
theorem tells_lasts {known : List ρ} {reports : List (Report ρ ε)}
    (h : Spoiled disk ∨ Tells format known reports disk)
    (hmoves : (fullTerms format pid).rely disk disk' ∨ (fullTerms format pid).guar disk disk') :
    Spoiled disk' ∨ Tells format known reports disk' := by
  rcases hmoves with (hspoiled | ⟨hnot, hgrows, -⟩) | (hspoiled | ⟨hnot, hgrows, -⟩)
  · exact .inl hspoiled
  · exact .inr (Tells.lasts hgrows.acted (h.resolve_left hnot))
  · exact .inl hspoiled
  · exact .inr (Tells.lasts hgrows.acted (h.resolve_left hnot))

/-- The appended record stands behind the known ones. -/
theorem Holds.append {next : UInt64} {record : ρ} {entry : ι} (h : Holds format pid next disk)
    (hgood : disk.Good format) (hstamp : format.stamp next entry = .ok record) :
    Holds format pid (next + 1)
        (((disk.extend (format.encode record)).settle).act record) ∧
      (((disk.extend (format.encode record)).settle).act record).Good format := by
  obtain ⟨records, hwritten⟩ := h.written
  obtain ⟨hvalid, hnumber, hmax⟩ := format.stamp_ok hstamp
  have happend := hwritten.append hvalid hnumber hmax
  exact ⟨⟨h.lock, _, happend⟩, Disk.Good.act rfl happend (hgood.sublist hwritten)⟩

theorem secure_operate : ∀ (ops : List (Op ι)) {known : List ρ} {next : UInt64} {disk : Disk ρ},
    Holds format pid next disk → (∀ record ∈ known, record ∈ disk.acted) →
      Secure acts (fullTerms format pid)
        (fun reports disk => Spoiled disk ∨ Tells format known reports disk)
        (format.operate next ops) disk
  | [], _, _, _, _, _ => fun _ _ _ => .inr trivial
  | .append entry goesOn :: ops, known, next, disk, hholds, hknown => by
      have hspoil : ∀ (reports : List (Report ρ ε)) (disk : Disk ρ), Spoiled disk →
          Spoiled disk ∨ Tells format known reports disk := fun _ _ h => .inl h
      rw [Format.operate]
      split
      · split
        · exact Secure.map (secure_operate ops hholds hknown)
        · exact fun _ _ _ => .inr trivial
      · rename_i record hstamp
        refine Secure.of_wait fun disk₀ hrely₀ hgood₀ => ?_
        by_cases hspoiled₀ : Spoiled disk₀
        · exact Secure.barred acts_spoiled hspoil _ hspoiled₀
        -- nobody has done anything since
        obtain rfl := (hrely₀.resolve_left hspoiled₀).2.2 hholds.lock
        have hgood₀ := hgood₀.resolve_left hspoiled₀
        refine Secure.bind (Secure.barring acts_spoiled
          (secure_writeSynchronized (format.encode record) hholds.lock)) fun written disk₁ _ h => ?_
        by_cases hspoiled₁ : Spoiled disk₁
        · exact Secure.barred acts_spoiled hspoil _ hspoiled₁
        have hwritten := h.resolve_left hspoiled₁
        split
        · rename_i hdone
          obtain rfl := hwritten hdone
          refine Secure.barring_bind acts_spoiled hspoil
            fun disk₂ hspoiled₂ hrely₂ hgood₂ _ disk₃ hacts => ?_
          obtain rfl := hrely₂.2 hholds.lock
          cases hacts
          obtain ⟨hholds₃, hgood₃⟩ := hholds.append hgood₀ hstamp
          refine .inr ⟨guar_locked hholds.lock ⟨List.prefix_rfl, fun _ h => ?_⟩, hgood₃, ?_⟩
          · exact List.mem_append_left _ h
          · have hmem : record ∈ ((disk₀.extend (format.encode record)).settle.act record).acted :=
              List.mem_append_right _ (List.mem_singleton_self record)
            have hknown₃ : ∀ r ∈ record :: known,
                r ∈ ((disk₀.extend (format.encode record)).settle.act record).acted := by
              intro r hr
              rcases List.mem_cons.mp hr with rfl | hr
              · exact hmem
              · exact List.mem_append_left _ (hknown r hr)
            -- the rest goes on behind the record, which stays acted on
            have hnext := secure_operate ops hholds₃ hknown₃
            have hframe := Secure.frame (P := fun disk => Spoiled disk ∨ record ∈ disk.acted) hnext
              (fun s s' hP hmoves => ?_) (.inr hmem)
            · refine Secure.map (hframe.mono fun reports disk' _ hend => ?_)
              rcases hend with ⟨hspoiled | htells, hspoiled | hacted⟩
              · exact .inl hspoiled
              · exact .inl hspoiled
              · exact .inl hspoiled
              · exact .inr ⟨hacted, htells⟩
            · rcases hmoves with (hspoiled | ⟨hnot, hgrows, -⟩) | (hspoiled | ⟨hnot, hgrows, -⟩)
              · exact .inl hspoiled
              · exact .inr (hgrows.acted record (hP.resolve_left hnot))
              · exact .inl hspoiled
              · exact .inr (hgrows.acted record (hP.resolve_left hnot))
        · split
          · refine Secure.barring_bind acts_spoiled hspoil fun disk₂ _ _ _ _ disk₃ hacts => .inl ?_
            cases hacts
            rfl
          · exact fun _ _ _ => .inr trivial
  | .look :: ops, known, next, disk, hholds, hknown => by
      have hspoil : ∀ (reports : List (Report ρ ε)) (disk : Disk ρ), Spoiled disk →
          Spoiled disk ∨ Tells format known reports disk := fun _ _ h => .inl h
      rw [Format.operate]
      refine Secure.bind (Secure.barring acts_spoiled (secure_snapshot pid disk))
        fun result disk₁ _ h => ?_
      by_cases hspoiled : Spoiled disk₁
      · exact Secure.barred acts_spoiled hspoil _ hspoiled
      obtain ⟨hrely, hseen⟩ := h.resolve_left hspoiled
      obtain rfl := hrely.2 hholds.lock
      have hnext := secure_operate ops hholds hknown
      cases result with
      | error reason => exact Secure.map hnext
      | ok bytes =>
          obtain ⟨seen, hrely₂, hgood, rfl, -⟩ := hseen bytes rfl
          obtain rfl := hrely₂.2 hholds.lock
          obtain ⟨records, hwritten⟩ := hholds.written
          refine Secure.map (hnext.mono fun reports disk' _ hend => ?_)
          refine hend.imp_right fun htells => ⟨⟨next, records, hwritten, fun record hr => ?_⟩, htells⟩
          exact (hgood.sublist hwritten).subset (hknown record hr)

/-! ## Requests -/

/-- What an outcome says, from then on. -/
def Request.Right (format : Format ι ρ σ ε) :
    Request ι ρ → Except ε (Outcome ρ σ ε) → Disk ρ → Prop
  | .session known _, .ok (.session summary reports), disk =>
      (∃ bytes, format.scan bytes = .ok summary ∧
        Disk.Shows format bytes (format.next summary) known) ∧ Tells format known reports disk
  | .inspect known, .ok (.inspected summary bytes), _ =>
      format.scan bytes = .ok summary ∧ Disk.Shows format bytes (format.next summary) known
  | _, .ok _, _ => False
  | _, .error _, _ => True

theorem secure_session {known : List ρ} (hknown : ∀ record ∈ known, record ∈ disk.acted)
    (ops : List (Op ι)) :
    Secure acts (fullTerms format pid)
      (fun result disk => Spoiled disk ∨ (Request.session known ops).Right format result disk)
      (format.session pid ops) disk := by
  have hspoil : ∀ (result : Except ε (Outcome ρ σ ε)) (disk : Disk ρ), Spoiled disk →
      Spoiled disk ∨ (Request.session known ops).Right format result disk := fun _ _ h => .inl h
  have hframe := Secure.frame (P := fun disk => ∀ record ∈ known, record ∈ disk.acted)
    (@secure_openLog ι ρ σ ε format disk pid known hknown) (fun s s' hP hmoves record hr => ?_) hknown
  · refine Secure.bind (Secure.barring acts_spoiled hframe) fun result disk₁ _ h => ?_
    by_cases hspoiled : Spoiled disk₁
    · exact Secure.barred acts_spoiled hspoil _ hspoiled
    obtain ⟨hopened, hknown₁⟩ := h.resolve_left hspoiled
    cases result with
    | error reason => exact fun _ _ _ => .inr trivial
    | ok summary =>
        obtain ⟨hholds, htold⟩ := hopened
        refine Secure.bind (secure_operate ops hholds hknown₁) fun reports disk₂ _ htells => ?_
        by_cases hspoiled₂ : Spoiled disk₂
        · exact Secure.barred acts_spoiled hspoil _ hspoiled₂
        have htells := htells.resolve_left hspoiled₂
        refine Secure.barring_bind acts_spoiled hspoil fun disk₃ _ hrely₃ hgood₃ _ disk₄ hacts => ?_
        obtain rfl : disk₄ = disk₃.unlock pid := hacts
        have hguar := guar_unlock format pid disk₃
        refine .inr ⟨hguar, hgood₃.unlock pid, fun disk₅ hrely₅ _ => ?_⟩
        have htells₄ := Tells.lasts hguar.1.acted (Tells.lasts hrely₃.1.acted htells)
        exact (tells_lasts (.inr htells₄) (.inl hrely₅)).imp_right fun htells => ⟨htold, htells⟩
  · rcases hmoves with ⟨hgrows, -⟩ | ⟨hgrows, -⟩
    · exact hgrows.acted record (hP record hr)
    · exact hgrows.acted record (hP record hr)

theorem secure_inspect {known : List ρ} (hknown : ∀ record ∈ known, record ∈ disk.acted) :
    Secure acts (terms format pid)
      (fun result disk => (Request.inspect known : Request ι ρ).Right format result disk)
      format.inspect disk := by
  refine Secure.look (fun _ _ _ h => h) (guar_refl format pid) fun disk₁ hrely₁ _ opened _ => ?_
  split
  · exact fun _ _ _ => trivial
  refine Secure.look (fun _ _ _ h => h.1) (guar_refl format pid) fun disk₂ hrely₂ _ status _ => ?_
  split
  · refine Secure.bind (secure_snapshot pid disk₂) fun result disk₃ _ hresult => ?_
    refine Secure.look (fun _ _ _ h => h) (guar_refl format pid) fun _ _ _ _ _ => ?_
    refine fun _ _ _ => ?_
    cases result with
    | error reason => trivial
    | ok bytes =>
        obtain ⟨seen, hrely₃, hgood, rfl, hsize⟩ := hresult.2 bytes rfl
        show (Request.inspect known : Request ι ρ).Right format
          ((format.scan seen.bytes).map (Outcome.inspected · seen.bytes)) _
        cases hscan : format.scan seen.bytes with
        | error reason => trivial
        | ok summary =>
            refine ⟨hscan, hgood.shows (fun record hr => ?_) hsize hscan⟩
            exact hrely₃.1.acted _ (hrely₂.1.acted _ (hrely₁.1.acted _ (hknown record hr)))
  · exact Secure.look (fun _ _ _ h => h) (guar_refl format pid) fun _ _ _ _ _ _ _ _ => trivial

theorem Request.right_lasts {request : Request ι ρ} {result : Except ε (Outcome ρ σ ε)}
    (hacted : ∀ record ∈ disk.acted, record ∈ disk'.acted) (h : request.Right format result disk) :
    request.Right format result disk' := by
  cases request with
  | session known ops =>
      cases result with
      | error reason => trivial
      | ok outcome =>
          cases outcome with
          | session summary reports => exact ⟨h.1, Tells.lasts hacted h.2⟩
          | inspected summary bytes => exact h
  | inspect known =>
      cases result with
      | error reason => trivial
      | ok outcome => cases outcome <;> exact h

/-- The processes on a log fit together. -/
theorem rules_sound (format : Format ι ρ σ ε) :
    Commons.Sound format.rules (fullTerms format)
      (fun disk => Spoiled disk ∨ disk.Good format)
      (fun request result disk => Spoiled disk ∨ request.Right format result disk) where
  same _ := rfl
  init disk hinit := by
    obtain ⟨hacted, -, -, hsynced⟩ := hinit
    refine .inr ⟨hsynced, [], 1, [], List.nil_prefix, Nat.zero_le _, Framed.written_nil, ?_⟩
    rw [hacted]
  secure pid request disk _ hadmits := by
    cases request with
    | session known ops => exact secure_session hadmits ops
    | inspect known => exact Secure.barring acts_spoiled (secure_inspect hadmits)
  reap pid disk hinv := by
    refine ⟨?_, ?_⟩
    · obtain ⟨lock, hlock⟩ := disk.unlock_eq pid
      refine hinv.imp (fun hspoiled => ?_) fun hgood => hgood.unlock pid
      show (disk.unlock pid).spoiled = true
      rw [hlock]
      exact hspoiled
    · by_cases hspoiled : Spoiled disk
      · obtain ⟨lock, hlock⟩ := disk.unlock_eq pid
        refine .inl ?_
        show (disk.unlock pid).spoiled = true
        rw [hlock]
        exact hspoiled
      · exact .inr ⟨hspoiled, guar_unlock format pid disk⟩
  -- what one process may do to a file it has the lock of, another may rely on
  others p q disk disk' hne _ _ hguar := by
    refine hguar.imp_right fun h => ⟨h.1, h.2.1, h.2.2 p hne⟩
  outside _ _ _ houtside := absurd houtside id
  crash disk disk' hinv hcrash := by
    refine hinv.imp (fun hspoiled => ?_) fun hgood => hgood.crash hcrash
    show disk'.spoiled = true
    rw [hcrash.2]
    exact hspoiled
  lasting request result disk disk' _ hright hmoves := by
    rcases hmoves with ⟨pid, hspoiled | ⟨hnot, hgrows, -⟩⟩ | houtside | hcrash
    · exact .inl hspoiled
    · exact .inr (Request.right_lasts hgrows.acted (hright.resolve_left hnot))
    · exact absurd houtside id
    · obtain ⟨-, hdisk⟩ := hcrash
      rw [hdisk]
      rcases hright with hspoiled | hright
      · exact .inl hspoiled
      · refine .inr (Request.right_lasts ?_ hright)
        exact fun _ hr => hr

end Hermas.LogFile
