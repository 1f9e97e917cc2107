import Litevirt.Crl.Bundle

/-!
# Minting a revocation list

`GenerateCRL` and `AppendToCRL` of `internal/pki/crl.go`.  A list is minted over the
serials the file holds already, and nothing is minted over a file that cannot be read.
-/

namespace Litevirt.Crl

open Litevirt.Lib

/-- Which accesses of a mint fail: the CA certificate and key, the file, the file again for
its number, and the write. -/
structure MintFaults where
  loadCA : Bool
  read : Bool
  version : Bool
  write : Bool

inductive MintError where
  | loadCA
  | readExisting
  | unreadable
  | notOurs
  | invalidSerial
  | write
  deriving DecidableEq

/-- A serial as it was given: its value, if the text is a number, and whether the text is
the one the number prints to. -/
structure SerialText where
  value : Option Int
  canonical : Bool

section

variable {β ρ δ ι : Type} (pki : Pki β ρ δ ι)

def existingSerials (file : Option (File β)) (readFails : Bool) : Except MintError (List Int) :=
  match file with
  | none => .ok []
  | some held =>
    if readFails then .error .readExisting
    else
      match parseCRLs pki held.body with
      | none => .error .unreadable
      | some members =>
        if members.all fun member => pki.signed member.block then .ok (serialsOf members)
        else .error .notOurs

/-- The values of the serials, unless one is not a number or is negative. -/
def serialValues : List SerialText → Except MintError (List Int)
  | [] => .ok []
  | text :: rest =>
    match text.value with
    | none => .error .invalidSerial
    | some serial =>
      if serial < 0 then .error .invalidSerial
      else (serialValues rest).map (serial :: ·)

def crlVersion (file : Option (File β)) (readFails : Bool) : Int64 :=
  match file with
  | none => 0
  | some held =>
    if readFails then 0
    else (parseCRLs pki held.body).elim 0 highestNumber

def nextCRLNumber (file : Option (File β)) (readFails : Bool) (now : Int64) : Int64 :=
  let prev := crlVersion pki file readFails
  if now ≤ prev then prev + 1 else now

def generateCRL (file : Option (File β)) (serials : List SerialText) (faults : MintFaults)
    (now : Int64) (nonce mtime : Nat) : Option (File β) × Except MintError Unit :=
  if faults.loadCA then (file, .error .loadCA)
  else
    match existingSerials pki file faults.read with
    | .error err => (file, .error err)
    | .ok existing =>
      match serialValues serials with
      | .error err => (file, .error err)
      | .ok added =>
        let number := (nextCRLNumber pki file faults.version now).toInt
        let block := pki.mint number (existing ++ added).dedup nonce
        if faults.write then (file, .error .write)
        else (some ⟨pki.encode [block], mtime⟩, .ok ())

inductive AppendError where
  | refusing
  | generate (err : MintError)
  deriving DecidableEq

/-- The serials `LoadCRL` reads, without a look at the signatures. -/
def loadCRL (file : Option (File β)) (readFails : Bool) : Except AppendError (List Int) :=
  match file with
  | none => .ok []
  | some held =>
    if readFails then .error .refusing
    else
      match parseCRLs pki held.body with
      | none => .error .refusing
      | some members => .ok (serialsOf members)

/-- A serial that is listed already is a success without a write. -/
def appendToCRL (file : Option (File β)) (serial : SerialText) (loadFails : Bool)
    (faults : MintFaults) (now : Int64) (nonce mtime : Nat) :
    Option (File β) × Except AppendError Unit :=
  match loadCRL pki file loadFails with
  | .error err => (file, .error err)
  | .ok existing =>
    if serial.canonical && serial.value.any (· ∈ existing) then (file, .ok ())
    else
      let generated := generateCRL pki file
        (existing.map (⟨some ·, true⟩) ++ [serial]) faults now nonce mtime
      (generated.1, generated.2.mapError .generate)

variable {pki} {file : Option (File β)}

theorem existingSerials_eq_ok {readFails : Bool} {existing : List Int}
    (read : existingSerials pki file readFails = .ok existing) (serial : Int) :
    Enforced pki file serial ↔ serial ∈ existing := by
  unfold existingSerials at read
  split at read
  · cases read
    simp [Enforced]
  split at read
  · cases read
  split at read
  · cases read
  rename_i members parsed
  split at read
  · rename_i signed
    cases read
    rw [enforced_some]
    exact revokes_iff ⟨parsed, List.all_eq_true.mp signed⟩
  · cases read

theorem mem_serialValues {serials : List SerialText} {added : List Int}
    (values : serialValues serials = .ok added) {serial : Int} (member : serial ∈ added) :
    ∃ text ∈ serials, text.value = some serial := by
  induction serials generalizing added with
  | nil =>
    cases values
    cases member
  | cons text rest ih =>
    unfold serialValues at values
    split at values
    · cases values
    rename_i first value
    split at values
    · cases values
    obtain ⟨others, read, rfl⟩ := map_eq_ok values
    rcases List.mem_cons.mp member with rfl | later
    · exact ⟨text, List.mem_cons_self, value⟩
    · obtain ⟨other, listed, same⟩ := ih read later
      exact ⟨other, List.mem_cons_of_mem _ listed, same⟩

variable {serial : Int}

theorem enforced_mint {number : Int} {serials : List Int} {nonce mtime : Nat} :
    Enforced pki (some ⟨pki.encode [pki.mint number serials nonce], mtime⟩) serial ↔
      serial ∈ serials := by
  let member : Parsed pki := ⟨_, _, pki.parse_mint number serials nonce⟩
  have revokes : Revokes pki (pki.encode ([member].map Parsed.block)) serial ↔
      serial ∈ serialsOf [member] :=
    revokes_encode (by simp) (by simpa [member] using pki.signed_mint number serials nonce)
  rw [enforced_some]
  refine revokes.trans ?_
  simp [mem_serialsOf, member]

variable (pki) in
/-- A mint fails and leaves the file, or writes a list of the existing serials and the given. -/
theorem generateCRL_cases (file : Option (File β)) (serials : List SerialText)
    (faults : MintFaults) (now : Int64) (nonce mtime : Nat) :
    (generateCRL pki file serials faults now nonce mtime).1 = file ∨
      ∃ existing added number, existingSerials pki file faults.read = .ok existing ∧
        serialValues serials = .ok added ∧ (generateCRL pki file serials faults now nonce mtime).1 =
          some ⟨pki.encode [pki.mint number (existing ++ added).dedup nonce], mtime⟩ := by
  unfold generateCRL
  split
  · exact .inl rfl
  split
  · exact .inl rfl
  rename_i existing read
  split
  · exact .inl rfl
  rename_i added values
  split
  · exact .inl rfl
  · exact .inr ⟨existing, added, _, read, values, rfl⟩

theorem generateCRL_keeps {serials : List SerialText}
    {faults : MintFaults} {now : Int64} {nonce mtime : Nat} (enforced : Enforced pki file serial) :
    Enforced pki (generateCRL pki file serials faults now nonce mtime).1 serial := by
  rcases generateCRL_cases pki file serials faults now nonce mtime with
    same | ⟨existing, added, number, read, _, written⟩
  · rw [same]
    exact enforced
  · rw [written, enforced_mint, List.mem_dedup]
    exact List.mem_append_left _ ((existingSerials_eq_ok read serial).mp enforced)

theorem generateCRL_adds {serials : List SerialText} {faults : MintFaults} {now : Int64}
    {nonce mtime : Nat}
    (enforced : Enforced pki (generateCRL pki file serials faults now nonce mtime).1 serial) :
    Enforced pki file serial ∨ ∃ text ∈ serials, text.value = some serial := by
  rcases generateCRL_cases pki file serials faults now nonce mtime with
    same | ⟨existing, added, number, read, values, written⟩
  · rw [same] at enforced
    exact .inl enforced
  rw [written, enforced_mint, List.mem_dedup, List.mem_append] at enforced
  rcases enforced with known | given
  · exact .inl ((existingSerials_eq_ok read serial).mpr known)
  · exact .inr (mem_serialValues values given)

/-- What is read without a look at the signatures is minted only over a file that passes it. -/
theorem appendToCRL_adds {text : SerialText} {loadFails : Bool} {faults : MintFaults}
    {now : Int64} {nonce mtime : Nat}
    (enforced : Enforced pki
      (appendToCRL pki file text loadFails faults now nonce mtime).1 serial) :
    Enforced pki file serial ∨ text.value = some serial := by
  unfold appendToCRL at enforced
  split at enforced
  · exact .inl enforced
  rename_i loaded read
  split at enforced
  · exact .inl enforced
  rcases generateCRL_cases pki file (loaded.map (⟨some ·, true⟩) ++ [text]) faults now nonce
    mtime with same | ⟨existing, added, number, again, values, written⟩
  · exact .inl (same ▸ enforced)
  refine (generateCRL_adds enforced).elim .inl ?_
  rintro ⟨other, listed, value⟩
  rcases List.mem_append.mp listed with old | new
  · obtain ⟨known, member, rfl⟩ := List.mem_map.mp old
    obtain rfl := Option.some.inj value
    have same : loaded = existing := by
      unfold loadCRL at read
      unfold existingSerials at again
      split at read
      · cases read
        cases again
        rfl
      split at read
      · cases read
      split at read
      · cases read
      rename_i members parsed
      cases read
      simp only [parsed] at again
      split at again
      · cases again
      split at again
      · cases again
        rfl
      · cases again
    exact .inl ((existingSerials_eq_ok again known).mpr (same ▸ member))
  · exact .inr (List.mem_singleton.mp new ▸ value)

end

end Litevirt.Crl
