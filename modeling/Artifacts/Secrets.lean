import Artifacts.Error
import Artifacts.Rust.Base64
import Artifacts.Rust.Text

/-!
# Encryption at rest

`seal` and `unseal` are AES-256-GCM, which is outside the program: `Cipher` is a cipher
under which a ciphertext opens with its own key and with no other.  Random bytes are
inputs.

What opens is a ciphertext of the same key and nonce, which is a property of the cipher and not of
this program.  Nonces are drawn by the caller; that no two are equal is nowhere needed.
-/

namespace Artifacts
namespace Secrets

open Rust

/-- `MasterKey`: 256 bits. -/
structure MasterKey where
  bytes : List UInt8
  size : bytes.length = 32
  deriving DecidableEq

/-- The 96 bits that go with one ciphertext. -/
structure Nonce where
  bytes : List UInt8
  size : bytes.length = 12
  deriving DecidableEq

/-- A perfect authenticated cipher: what was sealed opens under its own key and nonce, nothing else
opens, and no other key opens it. That holds of AES-256-GCM but for forgeries that nobody can find.
-/
structure Cipher where
  encrypt : MasterKey → Nonce → List UInt8 → List UInt8
  decrypt : MasterKey → Nonce → List UInt8 → Option (List UInt8)
  decrypt_encrypt : ∀ key nonce plaintext,
    decrypt key nonce (encrypt key nonce plaintext) = some plaintext
  /-- What opens is a ciphertext: it has the right tag. -/
  authentic : ∀ key nonce ciphertext plaintext, decrypt key nonce ciphertext = some plaintext →
    ciphertext = encrypt key nonce plaintext
  wrong_key : ∀ key key' nonce plaintext, key' ≠ key →
    decrypt key' nonce (encrypt key nonce plaintext) = none

/-- The crates behind this module: the cipher, and the text of a base64 error. -/
structure Crates where
  cipher : Cipher
  decodeError : String → String

variable (crates : Crates)

/-- `seal`, with the nonce it draws. -/
def sealBytes (key : MasterKey) (nonce : Nonce) (plaintext : List UInt8) :
    Result (List UInt8 × Nonce) :=
  .ok (crates.cipher.encrypt key nonce plaintext, nonce)

/-- `unseal`. Whatever is wrong with the key, the nonce or the ciphertext, the error is the same. -/
def unsealBytes (key : MasterKey) (ciphertext : List UInt8) (nonce : Nonce) : Result (List UInt8) :=
  match crates.cipher.decrypt key nonce ciphertext with
  | some plaintext => .ok plaintext
  | none => .error (.other "aes-gcm unseal failed: aead::Error")

/-- `<[u8; 12]>::try_from`. -/
def Nonce.tryFrom (bytes : List UInt8) : Option Nonce :=
  if h : bytes.length = 12 then some ⟨bytes, h⟩ else none

@[simp] theorem Nonce.tryFrom_bytes (nonce : Nonce) : Nonce.tryFrom nonce.bytes = some nonce :=
  dif_pos nonce.size

namespace MasterKey

/-- `to_base64`. -/
def toBase64 (key : MasterKey) : String := Base64.standard.encode key.bytes

/-- `from_base64`: either alphabet, any surrounding white space, 32 bytes. -/
def fromBase64 (s : String) : Result MasterKey :=
  let trimmed := trim s
  match (Base64.standard.decode trimmed).or (Base64.urlSafeNoPad.decode trimmed) with
  | none => .error (.other ("invalid base64 webhook key: " ++ crates.decodeError trimmed))
  | some raw =>
      if h : raw.length = 32 then
        .ok ⟨raw, h⟩
      else
        .error (.other ("webhook key must be 32 bytes (got " ++ toString raw.length ++ ")"))

/-- `load_or_generate`: the key, and the file as it is afterwards; `fresh` is the key it
draws where there is none. -/
def loadOrGenerate (env file : Option String) (fresh : MasterKey) :
    Result MasterKey × Option String :=
  match env, file with
  | some raw, _ => (fromBase64 crates raw, file)
  | none, some raw => (fromBase64 crates raw, file)
  | none, none => (.ok fresh, some fresh.toBase64)

end MasterKey

/-! ### Keys as text -/

theorem standard_noWhitespace (bytes : List UInt8) :
    ∀ c ∈ Base64.standard.encodeBytes bytes, isWhitespace c = false := by
  have hsymbols : ∀ c ∈ '=' :: Base64.standard.alphabet, isWhitespace c = false :=
    forall_mem_of_all (by decide)
  have hsymbol : ∀ n, isWhitespace (Base64.standard.symbol n) = false := by
    intro n
    refine hsymbols _ ?_
    unfold Base64.symbol
    by_cases hn : n < Base64.standard.alphabet.length
    · rw [List.getD_eq_getElem _ _ hn]
      exact List.mem_cons_of_mem _ (List.getElem_mem hn)
    · rw [List.getD_eq_default _ _ (Nat.le_of_not_lt hn)]
      exact List.mem_cons_self
  have hfill : ∀ c ∈ Base64.standard.fill, isWhitespace c = false :=
    forall_mem_of_all (by decide)
  induction bytes using Base64.encodeBytes.induct with
  | case1 =>
      intro c hc
      cases hc
  | case2 a =>
      intro c hc
      simp only [Base64.encodeBytes, List.cons_append, List.nil_append, List.mem_cons,
        List.mem_append] at hc
      rcases hc with rfl | rfl | hc | hc
      · exact hsymbol _
      · exact hsymbol _
      · exact hfill c hc
      · exact hfill c hc
  | case3 a b =>
      intro c hc
      simp only [Base64.encodeBytes, List.cons_append, List.nil_append, List.mem_cons] at hc
      rcases hc with rfl | rfl | rfl | hc
      · exact hsymbol _
      · exact hsymbol _
      · exact hsymbol _
      · exact hfill c hc
  | case4 a b d rest ih =>
      intro c hc
      simp only [Base64.encodeBytes, List.mem_cons] at hc
      rcases hc with rfl | rfl | rfl | rfl | hc
      · exact hsymbol _
      · exact hsymbol _
      · exact hsymbol _
      · exact hsymbol _
      · exact ih c hc

/-- **A key file is read back as the key.** -/
theorem MasterKey.fromBase64_toBase64 (key : MasterKey) :
    fromBase64 crates key.toBase64 = .ok key := by
  have htrim : trim key.toBase64 = key.toBase64 := by
    apply trim_eq_self
    unfold toBase64 Base64.encode
    rw [String.toList_ofList]
    exact standard_noWhitespace key.bytes
  have hdecode : Base64.standard.decode key.toBase64 = some key.bytes :=
    Base64.decode_encode Base64.standard_sound key.bytes
  unfold fromBase64
  dsimp only
  rw [htrim, hdecode]
  exact dif_pos key.size

theorem unsealBytes_eq_ok {crates : Crates} {key : MasterKey} {nonce : Nonce}
    {ciphertext plaintext : List UInt8} (h : unsealBytes crates key ciphertext nonce = .ok plaintext) :
    ciphertext = crates.cipher.encrypt key nonce plaintext := by
  unfold unsealBytes at h
  split at h
  · rename_i hdecrypt
    cases h
    exact crates.cipher.authentic key nonce ciphertext _ hdecrypt
  · cases h

/-- What was sealed opens under its own key and under no other. -/
theorem unsealBytes_encrypt (key key' : MasterKey) (nonce : Nonce) (plaintext : List UInt8) :
    unsealBytes crates key' (crates.cipher.encrypt key nonce plaintext) nonce =
      if key' = key then .ok plaintext
      else .error (.other "aes-gcm unseal failed: aead::Error") := by
  unfold unsealBytes
  by_cases h : key' = key
  · subst h
    rw [crates.cipher.decrypt_encrypt, if_pos rfl]
  · rw [crates.cipher.wrong_key key key' nonce plaintext h, if_neg h]

end Secrets
end Artifacts
