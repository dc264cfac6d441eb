import AndroidTvRemote.Certificate
import AndroidTvRemote.Runs

namespace AndroidTvRemote.Crypto

open Wire Runs

/-- How writing a file ends: it cannot be opened; it is truncated and the last
`lost + 1` bytes never reach it, which `write` finds out or, when they are still
in the buffer of the stream as it returns, nobody does; or all of them do. -/
inductive FileWrite
  | notOpened
  | cutShort (lost : ℕ)
  | cutUnseen (lost : ℕ)
  | complete
  deriving DecidableEq, Repr

def cut (data : Bytes) (lost : ℕ) : Bytes := data.take (data.length - 1 - lost)

/-- `writeBioToFile` on the contents of a file; `none` is a file that does not
exist. What the stream still holds it writes when it is destroyed, and nobody
asks how that went. -/
def writeBioToFile (data : Bytes) (path : String) (openSslError : Option String)
    (write : FileWrite) (file : Option Bytes) : Except Exception Unit × Option Bytes :=
  if data.length = 0 then
    (.error (.runtimeError
      (lastOpenSslError "failed to retrieve generated PEM data" openSslError)), file)
  else
    match write with
    | .notOpened => (.error (.runtimeError ("failed to write TLS identity file: " ++ path)), file)
    | .cutShort lost =>
      (.error (.runtimeError ("failed to write TLS identity file: " ++ path)),
        some (cut data lost))
    | .cutUnseen lost => (.ok (), some (cut data lost))
    | .complete => (.ok (), some data)

/-- What one call of `generateCertificateIfMissing` meets if it gets past the
existence check: the PEM texts of a new certificate and its key, or the
exception of a directory or of OpenSSL, and the two writes. -/
structure GenerateCall where
  generated : Except Exception (Bytes × Bytes)
  certificateWrite : FileWrite := .complete
  privateKeyWrite : FileWrite := .complete
  openSslError : Option String := none

structure IdentityFiles where
  certificate : Option Bytes := none
  privateKey : Option Bytes := none
  generations : List (Bytes × Bytes) := []
  deriving DecidableEq, Repr

variable (certificateFile privateKeyFile : String)

def generateCertificateIfMissing (call : GenerateCall) (files : IdentityFiles) :
    Except Exception Bool × IdentityFiles :=
  if files.certificate.isSome && files.privateKey.isSome then (.ok false, files)
  else
    match call.generated with
    | .error e => (.error e, files)
    | .ok (certPem, keyPem) =>
      let files := { files with generations := files.generations ++ [(certPem, keyPem)] }
      match writeBioToFile certPem certificateFile call.openSslError call.certificateWrite
          files.certificate with
      | (.error e, certificate) => (.error e, { files with certificate })
      | (.ok (), certificate) =>
        let files := { files with certificate }
        match writeBioToFile keyPem privateKeyFile call.openSslError call.privateKeyWrite
            files.privateKey with
        | (.error e, privateKey) => (.error e, { files with privateKey })
        | (.ok (), privateKey) => (.ok true, { files with privateKey })

def generateStep (files : IdentityFiles) (call : GenerateCall) : Option IdentityFiles :=
  some (generateCertificateIfMissing certificateFile privateKeyFile call files).2

namespace IdentityFiles

def Complete (files : IdentityFiles) : Prop :=
  ∃ pair ∈ files.generations,
    files.certificate = some pair.1 ∧ files.privateKey = some pair.2

def Missing (files : IdentityFiles) : Prop := files.certificate = none ∨ files.privateKey = none

/-- A call generates, gets behind the certificate and opens the file of the key,
but one of the two does not get into its file as a whole. -/
def Spoils (files : IdentityFiles) (call : GenerateCall) : Prop :=
  files.Missing ∧ ∃ certPem keyPem, call.generated = .ok (certPem, keyPem) ∧
    certPem ≠ [] ∧ keyPem ≠ [] ∧
    (call.certificateWrite = .complete ∨ ∃ lost, call.certificateWrite = .cutUnseen lost) ∧
    call.privateKeyWrite ≠ .notOpened ∧
    ¬ (call.certificateWrite = .complete ∧ call.privateKeyWrite = .complete)

end IdentityFiles

section Call

variable {certificateFile privateKeyFile} {call : GenerateCall} {files : IdentityFiles}

theorem generate_present (h : ¬ files.Missing) :
    generateCertificateIfMissing certificateFile privateKeyFile call files = (.ok false, files) := by
  obtain ⟨hc, hk⟩ := not_or.mp h
  rw [generateCertificateIfMissing, if_pos]
  simp [Option.isSome_iff_ne_none, hc, hk]

theorem cut_prefix (data : Bytes) (lost : ℕ) : cut data lost <+: data := List.take_prefix ..

theorem cut_ne {data : Bytes} (h : data ≠ []) (lost : ℕ) : cut data lost ≠ data := by
  intro heq
  have hlen := congrArg List.length heq
  have hpos := List.length_pos_iff.mpr h
  rw [cut, List.length_take] at hlen
  omega

theorem writeBioToFile_cases (data : Bytes) (path : String) (openSslError : Option String)
    (write : FileWrite) (file : Option Bytes) :
    (∃ e, writeBioToFile data path openSslError write file = (.error e, file)) ∨
    ∃ result kept, writeBioToFile data path openSslError write file = (result, some kept) ∧
      data ≠ [] ∧ write ≠ .notOpened ∧ kept <+: data ∧ (kept = data ↔ write = .complete) ∧
      (result = .ok () → write = .complete ∨ ∃ lost, write = .cutUnseen lost) := by
  unfold writeBioToFile
  split
  next => exact .inl ⟨_, rfl⟩
  next hlen =>
    have hd : data ≠ [] := by simpa using hlen
    cases write with
    | notOpened => exact .inl ⟨_, rfl⟩
    | cutShort lost =>
      exact .inr ⟨_, _, rfl, hd, nofun, cut_prefix data lost, iff_of_false (cut_ne hd lost) nofun,
        nofun⟩
    | cutUnseen lost =>
      exact .inr ⟨_, _, rfl, hd, nofun, cut_prefix data lost, iff_of_false (cut_ne hd lost) nofun,
        fun _ ↦ .inr ⟨lost, rfl⟩⟩
    | complete =>
      exact .inr ⟨_, _, rfl, hd, nofun, List.prefix_rfl, iff_of_true rfl rfl, fun _ ↦ .inl rfl⟩

/-- The files hold beginnings of the two texts, not both of them whole. -/
def IdentityFiles.Spoiled (files : IdentityFiles) (certPem keyPem : Bytes) : Prop :=
  ∃ certificate privateKey, files.certificate = some certificate ∧
    files.privateKey = some privateKey ∧ certificate <+: certPem ∧
    ¬ (certificate = certPem ∧ privateKey = keyPem)

theorem generate_missing (certificateFile privateKeyFile : String) (call : GenerateCall)
    (h : files.Missing) :
    ∃ result files', generateCertificateIfMissing certificateFile privateKeyFile call files =
        (result, files') ∧ result ≠ .ok false ∧
      (files' = files ∨ ∃ certPem keyPem, call.generated = .ok (certPem, keyPem) ∧
        files'.generations = files.generations ++ [(certPem, keyPem)] ∧
        (files'.privateKey = files.privateKey ∨
          files'.certificate = some certPem ∧ files'.privateKey = some keyPem ∨
          files.Spoils call ∧ files'.Spoiled certPem keyPem)) := by
  have hnot : ¬ (files.certificate.isSome && files.privateKey.isSome) = true := by
    rcases h with h | h <;> simp [h]
  rw [generateCertificateIfMissing, if_neg hnot]
  cases hg : call.generated with
  | error e => exact ⟨_, _, rfl, by simp, .inl rfl⟩
  | ok pair =>
    obtain ⟨certPem, keyPem⟩ := pair
    simp only
    obtain ⟨e, hc⟩ | ⟨result, cert, hc, hcne, -, hcpre, hcwhole, hcok⟩ := writeBioToFile_cases
      certPem certificateFile call.openSslError call.certificateWrite files.certificate
    · rw [hc]
      exact ⟨_, _, rfl, by simp, .inr ⟨_, _, rfl, rfl, .inl rfl⟩⟩
    rw [hc]
    cases result with
    | error e => exact ⟨_, _, rfl, by simp, .inr ⟨_, _, rfl, rfl, .inl rfl⟩⟩
    | ok u =>
      simp only
      obtain ⟨e, hk⟩ | ⟨result, key, hk, hkne, hopen, -, hkwhole, -⟩ := writeBioToFile_cases
        keyPem privateKeyFile call.openSslError call.privateKeyWrite files.privateKey
      · rw [hk]
        exact ⟨_, _, rfl, by simp, .inr ⟨_, _, rfl, rfl, .inl rfl⟩⟩
      have hout : cert = certPem ∧ key = keyPem ∨
          files.Spoils call ∧ ¬ (cert = certPem ∧ key = keyPem) := by
        by_cases hboth : cert = certPem ∧ key = keyPem
        · exact .inl hboth
        · refine .inr ⟨⟨h, certPem, keyPem, hg, hcne, hkne, hcok rfl, hopen, ?_⟩, hboth⟩
          exact fun hw ↦ hboth ⟨hcwhole.mpr hw.1, hkwhole.mpr hw.2⟩
      rw [hk]
      cases result
      all_goals
        refine ⟨_, _, rfl, by simp, .inr ⟨_, _, rfl, rfl, .inr ?_⟩⟩
        obtain ⟨rfl, rfl⟩ | ⟨hspoils, hnot⟩ := hout
        · exact .inl ⟨rfl, rfl⟩
        · exact .inr ⟨hspoils, cert, key, rfl, rfl, hcpre, hnot⟩

def IdentityFiles.KeyComplete (files : IdentityFiles) : Prop :=
  files.privateKey ≠ none → files.Complete

theorem IdentityFiles.Complete.not_missing (h : files.Complete) : ¬ files.Missing := by
  obtain ⟨pair, -, hc, hk⟩ := h
  rintro (hn | hn)
  · rw [hc] at hn
    cases hn
  · rw [hk] at hn
    cases hn

theorem keyComplete_step {files' : IdentityFiles} (h : files.KeyComplete)
    (hspoils : ¬ files.Spoils call)
    (hs : generateStep certificateFile privateKeyFile files call = some files') :
    files'.KeyComplete := by
  rw [generateStep, Option.some.injEq] at hs
  by_cases hm : files.Missing
  · have hkey : files.privateKey = none := by
      by_contra hk
      exact (h hk).not_missing hm
    obtain ⟨result, files₁, hcall, -, rfl | ⟨certPem, keyPem, -, hgen, hout⟩⟩ :=
      generate_missing certificateFile privateKeyFile call hm
    · rw [hcall] at hs
      exact hs ▸ h
    · rw [hcall] at hs
      obtain rfl : files₁ = files' := hs
      obtain hsame | ⟨hc, hk⟩ | ⟨hbad, -⟩ := hout
      · intro hne
        exact absurd (hsame.trans hkey) hne
      · intro _
        exact ⟨(certPem, keyPem), by rw [hgen]; simp, hc, hk⟩
      · exact absurd hbad hspoils
  · rw [generate_present hm] at hs
    exact hs ▸ h

theorem generations_step {files' : IdentityFiles} {pairs : List (Bytes × Bytes)}
    (h : files.generations.Sublist pairs)
    (hs : generateStep certificateFile privateKeyFile files call = some files') :
    files'.generations.Sublist (pairs ++ call.generated.toOption.toList) := by
  rw [generateStep, Option.some.injEq] at hs
  have hkeep : files.generations.Sublist (pairs ++ call.generated.toOption.toList) :=
    h.trans (List.sublist_append_left _ _)
  by_cases hm : files.Missing
  · obtain ⟨result, files₁, hcall, -, rfl | ⟨certPem, keyPem, hok, hgen, -⟩⟩ :=
      generate_missing certificateFile privateKeyFile call hm
    · rw [hcall] at hs
      exact hs ▸ hkeep
    · rw [hcall] at hs
      obtain rfl : files₁ = files' := hs
      rw [hgen, hok]
      exact h.append_right _
  · rw [generate_present hm] at hs
    exact hs ▸ hkeep

end Call

section Calls

variable {certificateFile privateKeyFile} {calls : List GenerateCall} {files : IdentityFiles}

def offered (calls : List GenerateCall) : List (Bytes × Bytes) :=
  calls.filterMap fun call ↦ call.generated.toOption

/-- No certificate begins with one made before: it is new, and the text of the
other ends with a line that a text in PEM form has only once. -/
def Fresh (calls : List GenerateCall) : Prop :=
  (offered calls).Pairwise fun earlier later ↦ ¬ earlier.1 <+: later.1

theorem generations_run (h : Run (generateStep certificateFile privateKeyFile) {} calls files) :
    files.generations.Sublist (offered calls) := by
  refine h.history (H := fun calls files ↦ files.generations.Sublist (offered calls))
    (List.nil_sublist _) ?_
  intro calls t call u _ ht hs
  have hnext := generations_step ht hs
  have hoffer : offered (calls ++ [call]) =
      offered calls ++ call.generated.toOption.toList := by
    rw [offered, List.filterMap_append]
    cases hg : call.generated.toOption <;> simp [offered, hg]
  rwa [hoffer]

theorem generate_spoils (certificateFile privateKeyFile : String) {call : GenerateCall}
    (h : files.Spoils call) :
    ∃ certPem keyPem, let files' :=
        (generateCertificateIfMissing certificateFile privateKeyFile call files).2
      files'.generations = files.generations ++ [(certPem, keyPem)] ∧
        files'.Spoiled certPem keyPem := by
  obtain ⟨hm, certPem, keyPem, hg, hc, hk, hcw, hopen, hnot⟩ := h
  have hmissing : ¬ (files.certificate.isSome && files.privateKey.isSome) = true := by
    rcases hm with hm | hm <;> simp [hm]
  have hclen : ¬ certPem.length = 0 := by simpa using hc
  have hklen : ¬ keyPem.length = 0 := by simpa using hk
  refine ⟨certPem, keyPem, ?_⟩
  simp only [generateCertificateIfMissing, if_neg hmissing, hg, writeBioToFile, if_neg hclen]
  rcases hcw with hcw | ⟨lost, hcw⟩
  · simp only [hcw, if_neg hklen]
    cases hkw : call.privateKeyWrite with
    | notOpened => exact absurd hkw hopen
    | cutShort lost | cutUnseen lost =>
      exact ⟨rfl, _, _, rfl, rfl, List.prefix_rfl, fun hboth ↦ cut_ne hk lost hboth.2⟩
    | complete => exact absurd ⟨hcw, hkw⟩ hnot
  · simp only [hcw, if_neg hklen]
    cases hkw : call.privateKeyWrite with
    | notOpened => exact absurd hkw hopen
    | cutShort _ | cutUnseen _ | complete =>
      exact ⟨rfl, _, _, rfl, rfl, cut_prefix .., fun hboth ↦ cut_ne hc lost hboth.1⟩

theorem not_complete_of_spoils {call : GenerateCall} {files' : IdentityFiles}
    (hfresh : files'.generations.Pairwise fun earlier later ↦ ¬ earlier.1 <+: later.1)
    (hspoils : files.Spoils call)
    (hs : generateStep certificateFile privateKeyFile files call = some files') :
    ¬ files'.Missing ∧ ¬ files'.Complete := by
  obtain ⟨certPem, keyPem, hgen, cert, key, hcert, hkey, hprefix, hnot⟩ :=
    generate_spoils certificateFile privateKeyFile hspoils
  rw [generateStep, Option.some.injEq] at hs
  rw [hs] at hgen hcert hkey
  refine ⟨by simp [IdentityFiles.Missing, hcert, hkey], ?_⟩
  intro h
  obtain ⟨pair, hpair, hc, hk⟩ := h
  obtain rfl : cert = pair.1 := Option.some.inj (hcert.symm.trans hc)
  obtain rfl : key = pair.2 := Option.some.inj (hkey.symm.trans hk)
  rw [hgen] at hpair hfresh
  rcases List.mem_append.mp hpair with hold | hnew
  · exact (List.pairwise_append.mp hfresh).2.2 pair hold _ List.mem_cons_self hprefix
  · obtain rfl := List.mem_singleton.mp hnew
    exact hnot ⟨rfl, rfl⟩

theorem keyComplete_run (h : Run (generateStep certificateFile privateKeyFile) {} calls files)
    (hwhole : Along (generateStep certificateFile privateKeyFile)
      (fun files call ↦ ¬ files.Spoils call) {} calls) : files.KeyComplete := by
  refine h.invariant_along (I := IdentityFiles.KeyComplete) ?_ hwhole (fun h ↦ absurd rfl h)
  intro files call files' hk hnot hs
  exact keyComplete_step hk hnot hs

/-- The calls trust the files exactly where these hold a generation, unless a
call follows on one that left a part of it in both. -/
theorem generation_trusted_iff (hfresh : Fresh calls) :
    Along (generateStep certificateFile privateKeyFile) (fun files call ↦
        (generateCertificateIfMissing certificateFile privateKeyFile call files).1 = .ok false →
          files.Complete) {} calls ↔
      ∀ pre call next post files, calls = pre ++ call :: next :: post →
        Run (generateStep certificateFile privateKeyFile) {} pre files → ¬ files.Spoils call := by
  constructor
  · intro h pre call next post files hcalls hrun hspoils
    have hs : generateStep certificateFile privateKeyFile files call = some _ := rfl
    have hrun' := hrun.trans (.one hs)
    have hgen := generations_run hrun'
    have hoffer : (offered (pre ++ [call])).Sublist (offered calls) := by
      rw [hcalls]
      apply List.Sublist.filterMap
      exact (List.Sublist.refl pre).append (List.singleton_sublist.mpr List.mem_cons_self)
    obtain ⟨hpresent, hbad⟩ := not_complete_of_spoils
      (hfresh.sublist (hgen.trans hoffer)) hspoils hs
    refine hbad (h (pre ++ [call]) next post _ (by simp [hcalls]) hrun' ?_)
    rw [generate_present hpresent]
  · intro h pre call post files hcalls hrun hfalse
    have hwhole : Along (generateStep certificateFile privateKeyFile)
        (fun files call ↦ ¬ files.Spoils call) {} pre := by
      intro pre' e post' t hpre ht
      obtain ⟨next, post'', hnext⟩ : ∃ next post'', post' ++ call :: post = next :: post'' := by
        cases post' with
        | nil => exact ⟨call, post, rfl⟩
        | cons first post' => exact ⟨first, post' ++ call :: post, rfl⟩
      refine h pre' e next post'' t ?_ ht
      rw [hcalls, hpre, List.append_assoc, List.cons_append, hnext]
    by_cases hm : files.Missing
    · obtain ⟨result, files', hcall, hne, -⟩ := generate_missing
        certificateFile privateKeyFile call hm
      rw [hcall] at hfalse
      exact absurd hfalse hne
    · exact keyComplete_run hrun hwhole (not_or.mp hm).2

def recovered : List GenerateCall :=
  [{ generated := .ok ([1, 2], [3, 4]), privateKeyWrite := .notOpened },
    { generated := .ok ([5, 6], [7, 8]) }, { generated := .ok ([9], [10]) }]

theorem generation_trusted_iff_recovered :
    Fresh recovered ∧
      Along (generateStep "cert.pem" "key.pem") (fun files call ↦
        (generateCertificateIfMissing "cert.pem" "key.pem" call files).1 = .ok false →
          files.Complete) {} recovered := by
  have hfresh : Fresh recovered := by
    rw [Fresh]
    decide +kernel
  refine ⟨hfresh, (generation_trusted_iff hfresh).mpr ?_⟩
  rintro pre call next post files hcalls - ⟨-, _, _, -, -, -, -, hopen, hnot⟩
  have hmem : call ∈ recovered := by
    rw [hcalls]
    simp
  have hall : ∀ call ∈ recovered, call.privateKeyWrite = .notOpened ∨
      call.certificateWrite = .complete ∧ call.privateKeyWrite = .complete := by
    simp [recovered]
  rcases hall call hmem with h | h
  · exact hopen h
  · exact hnot h

/-- The disk is full in the middle of the key, whether `write` finds it out or
not, and the next call is content with what is there. -/
theorem cut_key_trusted :
    let first (write : FileWrite) : GenerateCall :=
      { generated := .ok ([1, 2], [3, 4]), privateKeyWrite := write }
    let next : GenerateCall := { generated := .ok ([5, 6], [7, 8]) }
    let files : IdentityFiles :=
      { certificate := some [1, 2], privateKey := some [3], generations := [([1, 2], [3, 4])] }
    (∀ write, Fresh [first write, next]) ∧
      generateCertificateIfMissing "cert.pem" "key.pem" (first (.cutShort 0)) {} =
        (.error (.runtimeError "failed to write TLS identity file: key.pem"), files) ∧
      generateCertificateIfMissing "cert.pem" "key.pem" (first (.cutUnseen 0)) {} =
        (.ok true, files) ∧
      generateCertificateIfMissing "cert.pem" "key.pem" next files = (.ok false, files) ∧
      ¬ files.Complete := by
  refine ⟨?_, by decide +kernel, by decide +kernel, by decide +kernel, ?_⟩
  · intro write
    simp [Fresh, offered, Except.toOption]
  · rw [IdentityFiles.Complete]
    decide +kernel

end Calls

end AndroidTvRemote.Crypto
