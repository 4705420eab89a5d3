import Artifacts.Rust.Base64
import Artifacts.Writers.Asks

/-!
# Server-side commits

`createCommit` follows the handler of `POST /v1/repos/:id/commits` from the check of its
input to the compare-and-swap of the branch, and `buildAndWriteCommit` the calls of `gix`
in between.  What the handler checks of the caller (authorisation, rate limit, owner,
quota) is its first argument.

The checks are made in the order of the source, and the first that fails decides the error.  Blobs
and trees are written by calls of gix; their content is data that is passed on.
-/

namespace Artifacts
namespace Writers

open Foundation Refs Rust

/-! ### The request -/

/-- A file-level change. -/
inductive Change where
  | write (path : String) (content contentBase64 : Option String) (mode : String)
  | delete (path : String)
  deriving DecidableEq, Repr

structure Author where
  name : String
  email : String
  deriving DecidableEq, Repr

structure CommitBody where
  branch : String
  parent : Option Oid
  message : String
  author : Option Author
  changes : List Change
  deriving DecidableEq, Repr

structure CommitResult where
  commit : String
  tree : String
  branch : String
  deriving DecidableEq, Repr

/-! ### Validators -/

/-- The control characters, the space and the reserved set. -/
def isReservedBranchChar (c : Char) : Bool :=
  c.toNat < 0x20 || c.toNat == 0x7f || [' ', '~', '^', ':', '?', '*', '['].contains c

/-- `valid_branch_name`. Unlike `valid_ref_name` it lets a component begin with a dash, and refuses
`@`. -/
def validBranchName (s : String) : Bool :=
  if s.isEmpty || s == "@" || startsWith s "/" || endsWith s "/" || endsWith s "." ||
      contains s "//" || contains s ".." || contains s "@\x7b" || contains s "\\" then
    false
  else if s.toList.any isReservedBranchChar then
    false
  else
    (split s '/').all fun part =>
      !(part.isEmpty || startsWith part "." || endsWith part ".lock")

/-- `std::path::Component`. -/
inductive PathComponent where
  | rootDir
  | curDir
  | parentDir
  | normal (part : String)
  deriving DecidableEq, Repr

/-- `Path::components`: repeated separators and later dots are skipped. -/
def pathComponents (p : String) : List PathComponent :=
  let front :=
    if startsWith p "/" then [.rootDir]
    else if (split p '/').head? = some "." then [.curDir]
    else []
  front ++ (split p '/').filterMap fun part =>
    if part.isEmpty || part == "." then none
    else if part == ".." then some .parentDir
    else some (.normal part)

/-- What one component of a path may be. -/
def validPathPart (part : String) : Bool :=
  !(part.isEmpty || part == "." || part == ".." || toAsciiLowercase part == ".git" ||
    part.toList.any fun c => c.toNat < 0x20 || c.toNat == 0x7f)

/-- `valid_path`: relative, without empty parts or NUL, and no part of it leads out of the tree. -/
def validPath (p : String) : Bool :=
  if p.isEmpty || startsWith p "/" || endsWith p "/" || contains p "//" then
    false
  else if (asBytes p).contains 0 then
    false
  else
    (split p '/').all validPathPart && (pathComponents p).all fun c =>
      match c with
      | .normal _ => true
      | _ => false

/-- `validate_sha`. -/
def validateSha (printable : Char → Bool) (s : String) : Result Unit :=
  if s.utf8ByteSize = 40 ∧ s.toList.all isAsciiHexdigit = true then .ok ()
  else .error (.badRequest ("invalid sha: " ++ debugStr printable s))

section Handler

variable (cfg : Config)

/-- The checks of one change. -/
def validateChange (change : Change) : Result Unit :=
  let (path, mode) :=
    match change with
    | .write path _ _ mode => (path, some mode)
    | .delete path => (path, none)
  if !validPath path then
    .error (.badRequest ("invalid path: " ++ debugStr cfg.printable path ++
      " (no absolute, no '..', no empty components)"))
  else
    match mode with
    | some m =>
        if m ≠ "100644" ∧ m ≠ "100755" then
          .error (.badRequest ("unsupported mode " ++ debugStr cfg.printable m ++
            " (only 100644 and 100755 allowed)"))
        else
          .ok ()
    | none => .ok ()

/-- The loop over the changes, which stops at the first bad one. -/
def validateChanges : List Change → Result Unit
  | [] => .ok ()
  | change :: changes =>
      match validateChange cfg change with
      | .error e => .error e
      | .ok () => validateChanges changes

/-- `PreparedChange`. -/
inductive PreparedChange where
  | write (path : String) (bytes : List UInt8) (kind : EntryKind)
  | delete (path : String)
  deriving DecidableEq, Repr

/-- The content of a written file. -/
def contentBytes (path : String) (content contentBase64 : Option String) :
    Result (List UInt8) :=
  match content, contentBase64 with
  | some _, some _ =>
      .error (.badRequest ("change for " ++ path ++ ": only one of content/contentBase64"))
  | none, none => .ok []
  | some s, none => .ok (asBytes s)
  | none, some b64 =>
      match Base64.standard.decode b64 with
      | some bytes => .ok bytes
      | none =>
          .error (.badRequest ("change for " ++ path ++ ": bad base64: " ++ cfg.base64Error b64))

/-- One change, decoded and under the size cap. -/
def prepareChange : Change → Result PreparedChange
  | .write path content contentBase64 mode =>
      match contentBytes cfg path content contentBase64 with
      | .error e => .error e
      | .ok bytes =>
          if bytes.length > cfg.maxCommitBlobBytes then
            .error (.badRequest ("change for " ++ path ++ ": blob is " ++
              toString bytes.length ++ " bytes, over limit of " ++
              toString cfg.maxCommitBlobBytes ++ " bytes"))
          else
            -- the mode was validated, so it is one of two
            .ok (.write path bytes (if mode = "100644" then .blob else .blobExecutable))
  | .delete path => .ok (.delete path)

def prepareChanges : List Change → Result (List PreparedChange)
  | [] => .ok []
  | change :: changes =>
      match prepareChange cfg change with
      | .error e => .error e
      | .ok prepared =>
          match prepareChanges changes with
          | .error e => .error e
          | .ok rest => .ok (prepared :: rest)

/-! ### The objects of a commit -/

/-- `BuildCommitInput`. -/
structure BuildCommitInput where
  parent : Option Oid
  changes : List PreparedChange
  message : String
  authorName : String
  authorEmail : String
  deriving DecidableEq, Repr

/-- `gix::ObjectId::empty_tree`. -/
def emptyTree : Oid := ⟨"4b825dc642cb6eb9a060e54bf8d69288fbee4904", by decide⟩

/-- The tree the changes are applied to.  An `Oid` is hexadecimal, so `from_hex` accepts it. -/
def baseTree : Option Oid → Writer Oid
  | some oid =>
      (askGix (.findCommit oid) id ("find parent " ++ oid.text)).andThen fun _ =>
        askGix (.treeId oid) id ("parent " ++ oid.text ++ " tree_id")
  | none => lift (.ok emptyTree)

/-- The loop over the prepared changes. -/
def editChanges (editor : TreeEditor) : List PreparedChange → Writer TreeEditor
  | [] => lift (.ok editor)
  | .write path bytes kind :: changes =>
      (askGix (.writeBlob bytes) id ("write_blob " ++ path)).andThen fun blobId =>
        (askGix (.upsert editor path kind blobId) id ("tree upsert " ++ path)).andThen fun _ =>
          editChanges { editor with edits := .upsert path kind blobId :: editor.edits } changes
  | .delete path :: changes =>
      (askGix (.remove editor path) id ("tree remove " ++ path)).andThen fun _ =>
        editChanges { editor with edits := .remove path :: editor.edits } changes

/-- The commit object that is written. -/
def commitObject (input : BuildCommitInput) (tree : Oid) (now : Option Nat) : Commit :=
  let signature : Signature :=
    { name := input.authorName, email := input.authorEmail, seconds := now.getD 0 }
  { tree := tree
    parents := input.parent.toList
    author := signature
    committer := signature
    message := input.message }

/-- `build_and_write_commit`: the ids of the commit and its tree. -/
def buildAndWriteCommit (input : BuildCommitInput) : Writer (Oid × Oid) :=
  (askGix .openRepo id ("gix::open " ++ cfg.gitDir)).andThen fun _ =>
  (baseTree input.parent).andThen fun base =>
  (askGix (.editTree base) id ("edit_tree on " ++ base.text)).andThen fun _ =>
  (editChanges ⟨base, []⟩ input.changes).andThen fun editor =>
  (askGix (.writeTree editor) id "write tree object").andThen fun tree =>
  .ask .systemTime fun now =>
  (askGix (.writeObject (commitObject input tree now)) id "write commit object").andThen
    fun commit => lift (.ok (commit, tree))

/-! ### The handler -/

/-- The author of a commit that names none. -/
def authorOr : Option Author → Author
  | some a => a
  | none => ⟨"Artifacts", "artifacts@noreply.local"⟩

/-- The parent a caller names must be there. -/
def checkParent : Option Oid → Writer Unit
  | some oid =>
      .ask (.objectExists oid) fun present =>
        match present with
        | .error e => .ret (.error e)
        | .ok true => .ret (.ok ())
        | .ok false => .ret (.error (.badRequest ("parent commit not found: " ++ oid.text)))
  | none => lift (.ok ())

/-- What the handler hands to the builder. -/
def commitInput (body : CommitBody) (changes : List PreparedChange) : BuildCommitInput :=
  { parent := body.parent
    changes := changes
    message := body.message
    authorName := (authorOr body.author).name
    authorEmail := (authorOr body.author).email }

/-- `create_commit`. The checks of the request come before the first object is written; the branch
is moved last, by a compare and swap against the parent that the request names. -/
def createCommit (admitted : Result Unit) (body : CommitBody) : Writer CommitResult :=
  (lift admitted).andThen fun _ =>
  if !validBranchName body.branch then
    .fail (.badRequest ("invalid branch name: " ++ debugStr cfg.printable body.branch))
  else
    (lift (validateChanges cfg body.changes)).andThen fun _ =>
    (checkParent body.parent).andThen fun _ =>
    (lift (prepareChanges cfg body.changes)).andThen fun changes =>
    (buildAndWriteCommit cfg (commitInput body changes)).andThen fun built =>
    (lift (RefName.tryFrom cfg.printable (branchRef body.branch))).andThen fun refName =>
    (casBranch body.branch refName body.parent built.1).andThen fun _ =>
    lift (.ok ⟨built.1.text, built.2.text, body.branch⟩)

end Handler

end Writers
end Artifacts
