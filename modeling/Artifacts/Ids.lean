import Artifacts.Error
import Artifacts.Rust.Text

/-!
# Validated identifiers

`RepoId`, `Oid`, `RefName`, `Token` and `Subject` wrap a string that passed its
validator; the validity is a field, so an ill-formed identifier cannot be built.  Each
`tryFrom` is the only way in, and is the identity on the text it accepts.

The validators are the source's, character by character.  `tryFrom_eq_ok` says of each which texts
it takes, and the `ext` lemmas that a value is its text.
-/

namespace Artifacts

open Rust

/-! ### Repository ids -/

/-- The character class of a repository id. -/
def isRepoIdChar (c : Char) : Bool :=
  isAsciiLowercase c || isAsciiDigit c || c == '-' || c == '_'

/-- What `validate_repo_id` accepts: 4 to 64 bytes of `[a-z0-9_-]`. -/
def validRepoId (id : String) : Bool :=
  !(id.utf8ByteSize < 4 || 64 < id.utf8ByteSize || !id.toList.all isRepoIdChar)

def validateRepoId (id : String) : Result Unit :=
  if validRepoId id then .ok () else .error (.invalidRepoId id)

structure RepoId where
  text : String
  valid : validRepoId text = true
  deriving DecidableEq, Repr

/-- `RepoId::try_from`. What it lets through carries the proof, so no other function checks an id
again. -/
def RepoId.tryFrom (s : String) : Result RepoId :=
  if h : validRepoId s = true then .ok ⟨s, h⟩ else .error (.invalidRepoId s)

/-! ### Object ids -/

/-- A lowercase hexadecimal digit. -/
def isOidChar (c : Char) : Bool :=
  isAsciiHexdigit c && !isAsciiUppercase c

/-- What `Oid::try_from` accepts: 40 bytes of lowercase hexadecimal digits. -/
def validOid (s : String) : Bool :=
  s.utf8ByteSize == 40 && s.toList.all isOidChar

structure Oid where
  text : String
  valid : validOid text = true
  deriving DecidableEq, Repr

/-- `Oid::try_from`. -/
def Oid.tryFrom (printable : Char → Bool) (s : String) : Result Oid :=
  if h : validOid s = true then .ok ⟨s, h⟩
  else .error (.badRequest ("invalid oid: " ++ debugStr printable s))

/-! ### Ref names -/

/-- Characters no ref name may contain. -/
def isForbiddenRefChar (c : Char) : Bool :=
  c.toNat < 0x20 || c.toNat == 0x7f ||
    [' ', '~', '^', ':', '?', '*', '['].contains c

/-- One component between slashes. -/
def validRefPart (part : String) : Bool :=
  !(part.isEmpty || startsWith part "." || startsWith part "-" || endsWith part ".lock")

/-- `valid_ref_name`. The rules are those of `check-ref-format` with some of its own: no component
begins with a dash, and `HEAD` is a name. -/
def validRefName (s : String) : Bool :=
  if s = "HEAD" then
    true
  else if s.isEmpty || startsWith s "/" || endsWith s "/" || endsWith s "." ||
      contains s "//" || contains s ".." || contains s "@\x7b" || contains s "\\" then
    false
  else if s.toList.any isForbiddenRefChar then
    false
  else
    (split s '/').all validRefPart

structure RefName where
  text : String
  valid : validRefName text = true
  deriving DecidableEq, Repr

/-- `RefName::try_from`. -/
def RefName.tryFrom (printable : Char → Bool) (s : String) : Result RefName :=
  if h : validRefName s = true then .ok ⟨s, h⟩
  else .error (.badRequest ("invalid ref name: " ++ debugStr printable s))

/-- The characters of an object id. -/
theorem Oid.isOidChar_of_mem (o : Oid) {c : Char} (hc : c ∈ o.text.toList) : isOidChar c = true := by
  have hvalid := o.valid
  simp only [validOid, Bool.and_eq_true, List.all_eq_true] at hvalid
  exact hvalid.2 c hc

theorem Oid.isAsciiHexdigit_of_mem (o : Oid) {c : Char} (hc : c ∈ o.text.toList) :
    isAsciiHexdigit c = true :=
  (Bool.and_eq_true_iff.mp (o.isOidChar_of_mem hc)).1

theorem Oid.not_mem_text (o : Oid) {c : Char} (hc : isOidChar c = false) : c ∉ o.text.toList := by
  intro hmem
  rw [o.isOidChar_of_mem hmem] at hc
  cases hc

theorem Oid.utf8ByteSize_text (o : Oid) : o.text.utf8ByteSize = 40 := by
  have hvalid := o.valid
  simp only [validOid, Bool.and_eq_true, beq_iff_eq] at hvalid
  exact hvalid.1

theorem Oid.toList_ne_nil (o : Oid) : o.text.toList ≠ [] := by
  have hvalid := o.valid
  intro hempty
  have htext : o.text = "" := String.toList_eq_nil_iff.mp hempty
  rw [htext] at hvalid
  exact absurd hvalid (by decide)

theorem range_of_isAsciiHexdigit {c : Char} (h : isAsciiHexdigit c = true) :
    (48 ≤ c.toNat ∧ c.toNat ≤ 57) ∨ (97 ≤ c.toNat ∧ c.toNat ≤ 102) ∨
      (65 ≤ c.toNat ∧ c.toNat ≤ 70) := by
  simpa [isAsciiHexdigit, isAsciiDigit, Char.le_def, UInt32.le_iff_toNat_le, or_assoc] using h

/-- The digits lie apart from the control characters and the blank. -/
theorem range_of_isOidChar {c : Char} (h : isOidChar c = true) : 48 ≤ c.toNat ∧ c.toNat ≤ 102 := by
  have hrange := range_of_isAsciiHexdigit (Bool.and_eq_true_iff.mp h).1
  omega

theorem isWhitespace_of_isOidChar {c : Char} (h : isOidChar c = true) : isWhitespace c = false := by
  have hrange := range_of_isOidChar h
  simp [isWhitespace]
  omega

theorem Oid.isWhitespace_of_mem (o : Oid) {c : Char} (hc : c ∈ o.text.toList) :
    isWhitespace c = false :=
  isWhitespace_of_isOidChar (o.isOidChar_of_mem hc)

/-- The characters of a ref name. -/
theorem RefName.not_forbidden_of_mem (r : RefName) {c : Char} (hc : c ∈ r.text.toList) :
    isForbiddenRefChar c = false := by
  have hvalid := r.valid
  unfold validRefName at hvalid
  split_ifs at hvalid with hhead hshape hchars
  · have hall : ∀ c ∈ "HEAD".toList, isForbiddenRefChar c = false := forall_mem_of_all (by decide)
    rw [hhead] at hc
    exact hall c hc
  · rw [List.any_eq_true, not_exists] at hchars
    rw [Bool.eq_false_iff]
    exact fun hforbidden => hchars c ⟨hc, hforbidden⟩

/-! ### Tokens -/

/-- `char::is_ascii_graphic`. -/
def isAsciiGraphic (c : Char) : Bool := '!' ≤ c ∧ c ≤ '~'

/-- What `Token::try_from` accepts: 1 to 256 bytes of graphic ASCII. -/
def validToken (s : String) : Bool :=
  !(s.isEmpty || 256 < s.utf8ByteSize) && s.toList.all isAsciiGraphic

structure Token where
  text : String
  valid : validToken text = true
  deriving DecidableEq, Repr

/-- `Token::try_from`. The length is that of the bytes, and is looked at first; its error names it.
-/
def Token.tryFrom (s : String) : Result Token :=
  if s.isEmpty || 256 < s.utf8ByteSize then
    .error (.badRequest
      ("invalid token: length " ++ toString s.utf8ByteSize ++ " (must be 1..=256)"))
  else if h : validToken s = true then .ok ⟨s, h⟩
  else .error (.badRequest "invalid token: non-graphic bytes")

/-! ### Subjects -/

/-- What `Subject::try_from` accepts: 1 to 256 bytes without the byte 0, which in
UTF-8 stands for the character 0 only. -/
def validSubject (s : String) : Bool :=
  !(s.isEmpty || 256 < s.utf8ByteSize || s.toList.contains '\x00')

structure Subject where
  text : String
  valid : validSubject text = true
  deriving DecidableEq, Repr

/-- `Subject::try_from`. -/
def Subject.tryFrom (s : String) : Result Subject :=
  if h : validSubject s = true then .ok ⟨s, h⟩ else .error (.badRequest "invalid subject")

/-! ### Round trips -/

@[ext] theorem RepoId.ext {a b : RepoId} (h : a.text = b.text) : a = b := by
  cases a
  cases b
  cases h
  rfl

@[ext] theorem Oid.ext {a b : Oid} (h : a.text = b.text) : a = b := by
  cases a
  cases b
  cases h
  rfl

@[ext] theorem RefName.ext {a b : RefName} (h : a.text = b.text) : a = b := by
  cases a
  cases b
  cases h
  rfl

@[ext] theorem Token.ext {a b : Token} (h : a.text = b.text) : a = b := by
  cases a
  cases b
  cases h
  rfl

@[ext] theorem Subject.ext {a b : Subject} (h : a.text = b.text) : a = b := by
  cases a
  cases b
  cases h
  rfl

@[simp] theorem RepoId.tryFrom_text (id : RepoId) : RepoId.tryFrom id.text = .ok id := by
  simp [RepoId.tryFrom, id.valid]

@[simp] theorem Oid.tryFrom_text (printable : Char → Bool) (o : Oid) :
    Oid.tryFrom printable o.text = .ok o := by
  simp [Oid.tryFrom, o.valid]

@[simp] theorem RefName.tryFrom_text (printable : Char → Bool) (r : RefName) :
    RefName.tryFrom printable r.text = .ok r := by
  simp [RefName.tryFrom, r.valid]

@[simp] theorem Token.tryFrom_text (t : Token) : Token.tryFrom t.text = .ok t := by
  have hlen : (t.text.isEmpty || decide (256 < t.text.utf8ByteSize)) = false :=
    (Bool.not_eq_true' _).mp (Bool.and_eq_true_iff.mp t.valid).1
  simp [Token.tryFrom, hlen, t.valid]

@[simp] theorem Subject.tryFrom_text (s : Subject) : Subject.tryFrom s.text = .ok s := by
  simp [Subject.tryFrom, s.valid]

theorem RepoId.tryFrom_eq_ok {s : String} {id : RepoId} :
    RepoId.tryFrom s = .ok id ↔ s = id.text := by
  constructor
  · intro h
    unfold RepoId.tryFrom at h
    split at h
    · cases h
      rfl
    · cases h
  · rintro rfl
    exact id.tryFrom_text

theorem Oid.tryFrom_eq_ok {printable : Char → Bool} {s : String} {o : Oid} :
    Oid.tryFrom printable s = .ok o ↔ s = o.text := by
  constructor
  · intro h
    unfold Oid.tryFrom at h
    split at h
    · cases h
      rfl
    · cases h
  · rintro rfl
    exact o.tryFrom_text printable

theorem RefName.tryFrom_eq_ok {printable : Char → Bool} {s : String} {r : RefName} :
    RefName.tryFrom printable s = .ok r ↔ s = r.text := by
  constructor
  · intro h
    unfold RefName.tryFrom at h
    split at h
    · cases h
      rfl
    · cases h
  · rintro rfl
    exact r.tryFrom_text printable

theorem Subject.tryFrom_eq_ok {s : String} {subject : Subject} :
    Subject.tryFrom s = .ok subject ↔ s = subject.text := by
  constructor
  · intro h
    unfold Subject.tryFrom at h
    split at h
    · cases h
      rfl
    · cases h
  · rintro rfl
    exact subject.tryFrom_text

end Artifacts
