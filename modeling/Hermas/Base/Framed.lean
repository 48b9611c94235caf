import Hermas.Base.Check
import Hermas.Base.Bytes
import Mathlib.Data.List.Induction

/-!
# Logs of records that carry their length

The reader of such a log learns from each record where the next one begins. A
format is framed when a record is read back whatever follows it, and a part of a
record is never read. Then a log is its records: a loop over the file is a loop
over the list, and a file that was cut inside a record is refused.
-/

namespace Hermas

variable {ρ ε σ κ : Type}

/-- A format whose records carry their length. -/
structure Framed (ρ ε : Type) where
  Valid : ρ → Prop
  encode : ρ → Bytes
  /-- The first record of a byte string, and how many bytes it takes. -/
  decode : Bytes → Except ε (ρ × Nat)
  encode_pos : ∀ r, Valid r → 0 < (encode r).length
  decode_encode : ∀ r, Valid r → ∀ rest, decode (encode r ++ rest) = .ok (r, (encode r).length)
  decode_cut : ∀ r, Valid r → ∀ n < (encode r).length, ∃ e, decode ((encode r).take n) = .error e

namespace Framed

variable (format : Framed ρ ε)

/-- The file of a list of records. -/
def file (records : List ρ) : Bytes := records.flatMap format.encode

/-- A loop over a file; every round sees a record and the bytes it takes. -/
def fold (step : σ → ρ → Bytes → Except ε σ) : Nat → σ → Bytes → Except ε σ
  | 0, s, _ => .ok s
  | rounds + 1, s, bytes =>
      if bytes = [] then .ok s
      else
        match format.decode bytes with
        | .error e => .error e
        | .ok (record, size) =>
            match step s record (bytes.take size) with
            | .error e => .error e
            | .ok s => fold step rounds s (bytes.drop size)

@[simp] theorem file_nil : format.file [] = [] := rfl

@[simp] theorem file_cons (r : ρ) (rs : List ρ) :
    format.file (r :: rs) = format.encode r ++ format.file rs := rfl

theorem file_append (rs ts : List ρ) :
    format.file (rs ++ ts) = format.file rs ++ format.file ts := List.flatMap_append

variable {format} {step : σ → ρ → Bytes → Except ε σ}

theorem encode_append_ne_nil {r : ρ} (h : format.Valid r) (rest : Bytes) :
    format.encode r ++ rest ≠ [] := by
  have hpos := format.encode_pos r h
  intro hnil
  rw [(List.append_eq_nil_iff.mp hnil).1] at hpos
  exact absurd hpos (by simp)

/-- One round reads the record at the front. -/
theorem fold_encode {r : ρ} (h : format.Valid r) (rounds : Nat) (s : σ) (rest : Bytes) :
    format.fold step (rounds + 1) s (format.encode r ++ rest) =
      step s r (format.encode r) >>= fun s => format.fold step rounds s rest := by
  rw [fold, if_neg (encode_append_ne_nil h rest), format.decode_encode r h]
  simp only [List.take_left', List.drop_left']
  cases step s r (format.encode r) <;> rfl

/-- **A loop over a file is a loop over its records.** Every record takes some bytes, so the length
of the file bounds the rounds. -/
theorem fold_file {rs : List ρ} (hvalid : ∀ r ∈ rs, format.Valid r) :
    ∀ {rounds : Nat} (s : σ), (format.file rs).length ≤ rounds →
      format.fold step rounds s (format.file rs) =
        rs.foldlM (fun s r => step s r (format.encode r)) s := by
  induction rs with
  | nil =>
      intro rounds s _
      cases rounds <;> simp [fold, pure, Except.pure]
  | cons r rs ih =>
      intro rounds s hrounds
      have hr := hvalid r (by simp)
      have hpos := format.encode_pos r hr
      rw [file_cons, List.length_append] at hrounds
      obtain ⟨rounds, rfl⟩ : ∃ k, rounds = k + 1 := ⟨rounds - 1, by omega⟩
      rw [file_cons, fold_encode hr, List.foldlM_cons]
      exact congrArg _ (funext fun s => ih (fun t ht => hvalid t (by simp [ht])) s (by omega))

/-- **A file that is cut inside a record is refused.** -/
theorem fold_cut {rs : List ρ} (hvalid : ∀ r ∈ rs, format.Valid r) :
    ∀ {rounds n : Nat} (s : σ), n ≤ rounds → n < (format.file rs).length →
      (∀ k, (format.file (rs.take k)).length ≠ n) →
      ∃ e, format.fold step rounds s ((format.file rs).take n) = .error e := by
  induction rs with
  | nil => intro rounds n s _ hn; exact absurd hn (by simp)
  | cons r rs ih =>
      intro rounds n s hrounds hn hinside
      have hr := hvalid r (by simp)
      have hzero : n ≠ 0 := fun h => hinside 0 (by simp [h])
      rw [file_cons, List.length_append] at hn
      obtain ⟨rounds, rfl⟩ : ∃ k, rounds = k + 1 := ⟨rounds - 1, by omega⟩
      by_cases hfirst : n < (format.encode r).length
      · -- the cut goes through the first record
        have htake : (format.encode r ++ format.file rs).take n = (format.encode r).take n :=
          List.take_append_of_le_length (by omega)
        have hne : (format.encode r).take n ≠ [] := by
          intro hnil
          have hlen := congrArg List.length hnil
          rw [List.length_take, List.length_nil] at hlen
          omega
        obtain ⟨e, he⟩ := format.decode_cut r hr n hfirst
        exact ⟨e, by rw [file_cons, htake, fold, if_neg hne, he]⟩
      · -- the first record is whole, and the cut goes through a later one
        have htake : (format.encode r ++ format.file rs).take n =
            format.encode r ++ (format.file rs).take (n - (format.encode r).length) := by
          rw [List.take_append, List.take_of_length_le (by omega)]
        have hpos := format.encode_pos r hr
        rw [file_cons, htake, fold_encode hr]
        cases step s r (format.encode r) with
        | error e => exact ⟨e, rfl⟩
        | ok s =>
            refine ih (fun t ht => hvalid t (by simp [ht])) s (by omega) (by omega) fun k hk => ?_
            refine hinside (k + 1) ?_
            rw [List.take_succ_cons, file_cons, List.length_append, hk]
            omega

/-- A loop whose states are numbered by the records it has seen. -/
theorem foldlM_counted {step : σ → ρ → Except ε σ} (state : Nat → σ) {rs : List ρ}
    (h : ∀ k (hk : k < rs.length), step (state k) rs[k] = .ok (state (k + 1))) :
    rs.foldlM step (state 0) = .ok (state rs.length) := by
  induction rs using List.reverseRecOn with
  | nil => rfl
  | append_singleton rs r ih =>
      have hbefore := ih fun k hk => by
        have hstep := h k (by rw [List.length_append]; omega)
        rwa [List.getElem_append_left hk] at hstep
      have hlast := h rs.length (by simp)
      rw [List.getElem_concat_length rfl] at hlast
      rw [List.foldlM_append, hbefore, List.length_append, List.length_singleton, ← hlast]
      change [r].foldlM step (state rs.length) = _
      rw [List.foldlM_cons]
      cases step (state rs.length) r <;> rfl

/-! ## Writers that number -/

/-- The file behind a writer is what it took, valid and numbered from 1 on. -/
structure Written (format : Framed ρ ε) (sequence : ρ → UInt64) (file : Bytes) (next : UInt64)
    (taken : List ρ) : Prop where
  file : file = format.file taken
  valid : ∀ r ∈ taken, format.Valid r
  numbered : ∀ k (hk : k < taken.length), (sequence taken[k]).toNat = k + 1
  next : next.toNat = taken.length + 1

variable {sequence : ρ → UInt64} {bytes : Bytes} {next : UInt64} {taken : List ρ}

theorem written_nil : Written format sequence [] 1 [] where
  file := rfl
  valid _ hr := absurd hr List.not_mem_nil
  numbered _ hk := absurd hk (Nat.not_lt_zero _)
  next := rfl

/-- A record that is taken carries the next number, which is not the last one there is. -/
theorem Written.append (h : Written format sequence bytes next taken) {r : ρ}
    (hvalid : format.Valid r) (hsequence : sequence r = next) (hmax : next ≠ uint64Max) :
    Written format sequence (bytes ++ format.encode r) (next + 1) (taken ++ [r]) where
  file := by rw [file_append, file_cons, file_nil, List.append_nil, h.file]
  valid t ht := by
    rcases List.mem_append.mp ht with ht | ht
    · exact h.valid t ht
    · rwa [List.mem_singleton.mp ht]
  numbered k hk := by
    rw [List.length_append, List.length_singleton] at hk
    by_cases hlast : k < taken.length
    · rw [List.getElem_append_left hlast]
      exact h.numbered k hlast
    · obtain rfl : k = taken.length := by omega
      rw [List.getElem_concat_length rfl, hsequence]
      exact h.next
  next := by
    have hlt := next.toNat_lt
    have hmax' : next.toNat ≠ 2 ^ 64 - 1 := fun heq =>
      hmax (UInt64.toNat_inj.mp (by rw [heq]; rfl))
    have hnext := h.next
    rw [UInt64.toNat_add, List.length_append, List.length_singleton]
    change (next.toNat + 1) % 2 ^ 64 = _
    omega

theorem Written.sequence_eq (h : Written format sequence bytes next taken) {k : Nat}
    (hk : k < taken.length) : sequence taken[k] = UInt64.ofNat (k + 1) := by
  rw [← h.numbered k hk, UInt64.ofNat_toNat]

/-- A file begins with the records it has in front. -/
theorem file_starts {rs : List ρ} (hvalid : ∀ r ∈ rs, format.Valid r) :
    ∀ {rs' : List ρ} {tail : Bytes}, (∀ r ∈ rs', format.Valid r) →
      format.file rs ++ tail = format.file rs' → rs <+: rs' := by
  induction rs with
  | nil => intro rs' tail _ _; exact List.nil_prefix
  | cons r rs ih =>
      intro rs' tail hvalid' hfile
      have hr := hvalid r (by simp)
      rw [file_cons, List.append_assoc] at hfile
      cases rs' with
      | nil => exact absurd hfile (encode_append_ne_nil hr _)
      | cons r' rs' =>
          -- both files have the same first record
          have hsame := congrArg format.decode hfile
          rw [file_cons, format.decode_encode r hr,
            format.decode_encode r' (hvalid' r' (by simp))] at hsame
          cases hsame
          rw [file_cons] at hfile
          have hrest := ih (fun t ht => hvalid t (by simp [ht]))
            (fun t ht => hvalid' t (by simp [ht])) (List.append_cancel_left hfile)
          exact (List.prefix_cons_inj r).mpr hrest

theorem Written.starts (h : Written format sequence bytes next taken) {bytes' : Bytes}
    {next' : UInt64} {taken' : List ρ} (h' : Written format sequence bytes' next' taken')
    (hbytes : bytes <+: bytes') : taken <+: taken' := by
  obtain ⟨tail, htail⟩ := hbytes
  rw [h.file, h'.file] at htail
  exact file_starts h.valid h'.valid htail

/-! ## Looking a key up -/

section Find

variable [DecidableEq κ] (key : ρ → κ) (size : ρ → Nat) (duplicate tooSmall : ε)

/-- A round of a search: the one record of a key, which has to fit the caller's buffer. -/
def findStep (wanted : κ) (capacity : Nat) (found : Option ρ) (candidate : ρ) (_ : Bytes) :
    Except ε (Option ρ) :=
  if key candidate ≠ wanted then .ok found
  else if found.isSome then .error duplicate
  else if capacity < size candidate then .error tooSmall
  else .ok (some candidate)

variable {key size duplicate tooSmall}

/-- Records of other keys are passed. -/
theorem foldlM_findStep_absent {rs : List ρ} {wanted : κ} {capacity : Nat} {found : Option ρ}
    {entry : ρ → Bytes} (h : ∀ r ∈ rs, key r ≠ wanted) :
    rs.foldlM (fun s r => findStep key size duplicate tooSmall wanted capacity s r (entry r)) found =
      .ok found := by
  induction rs with
  | nil => rfl
  | cons r rs ih =>
      rw [List.foldlM_cons, findStep, if_pos (h r (by simp))]
      exact ih fun t ht => h t (by simp [ht])

/-- **The record of a key is found** when no other record has that key. -/
theorem foldlM_findStep_found {rs : List ρ} (hkeys : (rs.map key).Nodup) {r : ρ} (hr : r ∈ rs)
    {capacity : Nat} (hsize : size r ≤ capacity) {entry : ρ → Bytes} :
    rs.foldlM (fun s t => findStep key size duplicate tooSmall (key r) capacity s t (entry t)) none =
      .ok (some r) := by
  induction rs with
  | nil => cases hr
  | cons t rs ih =>
      rw [List.map_cons, List.nodup_cons] at hkeys
      rw [List.foldlM_cons]
      rcases List.mem_cons.mp hr with rfl | hr
      · have hothers : ∀ u ∈ rs, key u ≠ key r := fun u hu heq =>
          hkeys.1 (heq ▸ List.mem_map_of_mem hu)
        rw [findStep, if_neg (not_not.mpr rfl), if_neg (by simp), if_neg (not_lt.mpr hsize)]
        exact foldlM_findStep_absent hothers
      · have hother : key t ≠ key r := fun heq => hkeys.1 (heq ▸ List.mem_map_of_mem hr)
        rw [findStep, if_pos hother]
        exact ih hkeys.2 hr

end Find

end Framed

end Hermas
