import Artifacts.GitWire.SideBands
import Artifacts.NativePack.Delivery
import Artifacts.SmartHttp.Dispatch

/-!
# Fetched and stored

What one deployment serves, another can store.  A round sends the body of a fetch to a
server, takes the pack out of the side bands of the answer and gives it to `ingest_pack` of
the SQLite store.  The servers may be others in every round, and grow between the rounds.

A client promises by a `have` that it holds all that is behind it.  As long as it keeps this
promise, and no missing commit is older than the oldest have, it holds all that is behind
its wants after the round, and can promise that in the next.  The packs may be thin: if the
base of a delta is neither sent nor held, the round fails and has stored some of the objects.
-/

namespace Artifacts
namespace SmartHttp

open Foundation GitWire NativePack Pkt Rust

/-! ### The client's side of the answer -/

/-- The frames of band 1 up to the flush, put together. -/
def bandData : List (Except PktError PktLine) → Option (List UInt8)
  | [.ok .flush] => some []
  | .ok (.data (band :: frame)) :: lines =>
      if band = 1 then (bandData lines).map fun pack => frame ++ pack else none
  | _ => none

/-- The pack in the body of an answer. -/
def receivedPack (body : List UInt8) : Option (List UInt8) :=
  match pktIter body with
  | .ok (.data line) :: lines => if line = asBytes "packfile\n" then bandData lines else none
  | _ => none

theorem bandData_of_demultiplexes {lines : List (Except PktError PktLine)} {payload : List UInt8}
    (h : Demultiplexes lines payload) : bandData lines = some payload := by
  obtain ⟨frames, rfl, rfl⟩ := h
  induction frames with
  | nil => rfl
  | cons frame frames ih =>
      rw [List.map_cons, List.cons_append, bandData, if_pos rfl, ih]
      rfl

theorem receivedPack_fetchResponse (pack : List UInt8) :
    receivedPack (fetchResponse pack).body = some pack := by
  obtain ⟨lines, hread, hlines⟩ := pktIter_fetchResponse pack
  unfold receivedPack
  rw [hread]
  dsimp only
  rw [if_pos rfl, bandData_of_demultiplexes hlines]

/-! ### A round -/

/-- A server, with the repository that its path leads to. Its gix and its `git pack-objects` may be
of any make, as long as they fit the round. -/
structure Server where
  repo : Repository
  gix : Gix
  packObjects : List UInt8 → Result (Bool × List UInt8 × List UInt8)
  repoPath : String

/-- A body that a server takes for a fetch of its own. -/
structure Round where
  server : Server
  body : List UInt8
  request : V2FetchRequest
  taken : nativeFetch body = some (.nativeV2Fetch request)

def Round.wants (round : Round) : List Oid := oidsOf round.request.wants

def Round.haves (round : Round) : List Oid := oidsOf round.request.haves

section Mirror

variable (printable : Char → Bool) {sha1 : Sha1} (zlib : Zlib) (z : Decompress) (repoId : RepoId)
  (world : World sha1)

/-- What the server answers. -/
def Round.answer (round : Round) : Result Response :=
  nativeV2FetchResponse printable round.server.gix round.server.packObjects round.server.repoPath
    round.request

/-- The answer is read, and its pack stored.  An error of the server ends the round. -/
def Round.fetchInto (round : Round) (rows : LooseRows) : Option (Result Nat × LooseRows) :=
  match round.answer printable with
  | .error e => some (.error e, rows)
  | .ok response =>
      match receivedPack response.body with
      | none => none
      | some pack =>
          ingestPack printable sha1 zlib (decompressZlib z) repoId pack.length pack rows

/-- Everything behind an id is stored and can be read, and is the object that the world has under
its id. -/
def Complete (rows : LooseRows) (id : Oid) : Prop :=
  ∀ o, ReachFrom world.repo.Link {id} o → (world.repo.find o).isSome = true →
    readLooseInflated printable zlib sqliteObjectStore rows repoId o = .ok (some (world.object o))

/-- Rows in good order, without another object under the hash of one of the world. -/
structure Agrees (rows : LooseRows) : Prop where
  wf : NativePack.WellFormed sha1 zlib sqliteObjectStore repoId rows
  apart : ∀ oid x, objectAt printable zlib sqliteObjectStore repoId rows oid = some x →
    (world.repo.find oid).isSome = true → x = world.object oid

/-- The pack of the answer has a delta whose base the client neither has nor gets. -/
def Round.Lacks (sha1 : Sha1) (round : Round) (rows : LooseRows) : Prop :=
  ∃ response bytes, round.answer printable = .ok response ∧
    receivedPack response.body = some bytes ∧ ∃ pack : Pack,
      parsePack (decompressZlib z) bytes = .ok pack.entries ∧
      LacksBase sha1 pack (objectAt printable zlib sqliteObjectStore repoId rows)

/-- What a round relies on: gix and `git pack-objects` on the server's side; on the client's, that
it wants commits, and the promise of its haves. The server may have any part of the world, another
one in every round. That the client has the bases of thin deltas is not in it. -/
structure Round.Fits (round : Round) (rows : LooseRows) : Prop where
  opens : ∀ repo, round.server.gix.openRepo = .ok repo → repo = round.server.repo
  part : PartOf round.server.repo world.repo
  commits : ∀ w ∈ round.wants, isCommit (round.server.repo.find w) = true
  recent : NoneOlder round.server.repo round.wants round.haves
  native : GixWrites z sha1 world round.server.gix round.server.repo round.wants round.haves
  fallback : ∀ pack err, round.server.packObjects
      (asBytes (revsInput round.request.wants round.request.haves)) = .ok (true, pack, err) →
    Delivers z sha1 world round.server.repo round.wants round.haves pack
  held : ∀ h ∈ round.haves, Complete printable zlib repoId world rows h

end Mirror

/-! ### One round -/

section Step

variable {printable : Char → Bool} {sha1 : Sha1} {zlib : Zlib} {z : Decompress} {repoId : RepoId}
  {world : World sha1} {rows rows' : LooseRows} {round : Round}

theorem complete_iff (hwf : NativePack.WellFormed sha1 zlib sqliteObjectStore repoId rows) {id : Oid} :
    Complete printable zlib repoId world rows id ↔
      ∀ o, ReachFrom world.repo.Link {id} o → (world.repo.find o).isSome = true →
        objectAt printable zlib sqliteObjectStore repoId rows o = some (world.object o) := by
  unfold Complete
  simp only [readLooseInflated_eq sqliteObjectStore_lawful hwf, Except.ok.injEq]

/-- What is at hand on both sides: the objects of the client, and those of the server. -/
def atHand (printable : Char → Bool) {sha1 : Sha1} (zlib : Zlib) (repoId : RepoId)
    (world : World sha1) (rows : LooseRows) (repo : Repository) (oid : Oid) : Option Object :=
  (objectAt printable zlib sqliteObjectStore repoId rows oid).or (world.has repo oid)

theorem atHand_of_held {oid : Oid} {x : Object} {repo : Repository}
    (h : objectAt printable zlib sqliteObjectStore repoId rows oid = some x) :
    atHand printable zlib repoId world rows repo oid = some x := by
  rw [atHand, h]
  rfl

/-- An object of the server that the client has too is the same there. -/
theorem Agrees.atHand_of_has (hagrees : Agrees printable zlib repoId world rows) {repo : Repository}
    (hpart : PartOf repo world.repo) {oid : Oid} {x : Object} (h : world.has repo oid = some x) :
    atHand printable zlib repoId world rows repo oid = some x := by
  cases hheld : objectAt printable zlib sqliteObjectStore repoId rows oid with
  | none =>
      rw [atHand, hheld]
      exact h
  | some y =>
      obtain ⟨hknown, rfl⟩ := World.has_eq_some.mp h
      rw [atHand_of_held hheld, hagrees.apart oid y hheld (hpart.known hknown)]

/-- What is at hand was held, or is an object of the world. -/
theorem atHand_cases {repo : Repository} (hpart : PartOf repo world.repo) {oid : Oid} {x : Object}
    (h : atHand printable zlib repoId world rows repo oid = some x) :
    objectAt printable zlib sqliteObjectStore repoId rows oid = some x ∨
      (world.repo.find oid).isSome = true ∧ x = world.object oid := by
  rcases Option.or_eq_some_iff.mp h with hheld | ⟨-, hhas⟩
  · exact Or.inl hheld
  · obtain ⟨hknown, rfl⟩ := World.has_eq_some.mp hhas
    exact Or.inr ⟨hpart.known hknown, rfl⟩

theorem Agrees.hash_of_atHand (hagrees : Agrees printable zlib repoId world rows) {repo : Repository}
    (hpart : PartOf repo world.repo) {oid : Oid} {x : Object}
    (h : atHand printable zlib repoId world rows repo oid = some x) : looseOidHex sha1 x = oid := by
  rcases atHand_cases hpart h with hheld | ⟨hknown, rfl⟩
  · exact hash_of_objectAt hagrees.wf hheld
  · exact world.hashed oid hknown

/-- Objects of the world keep their hashes apart from each other and from what is at hand. -/
theorem Agrees.hashesApart (hagrees : Agrees printable zlib repoId world rows) {repo : Repository}
    (hpart : PartOf repo world.repo) {objects : List Object}
    (hthere : ∀ x ∈ objects, ∃ o, (world.repo.find o).isSome = true ∧ x = world.object o) :
    HashesApart sha1 (atHand printable zlib repoId world rows repo) objects := by
  have hstored : ∀ {oid x}, objectAt printable zlib sqliteObjectStore repoId rows oid = some x →
      looseOidHex sha1 x = oid := fun h => hash_of_objectAt hagrees.wf h
  have hsource : ∀ x, ((∃ oid, atHand printable zlib repoId world rows repo oid = some x) ∨
      x ∈ objects) → (∃ oid, objectAt printable zlib sqliteObjectStore repoId rows oid = some x) ∨
        ∃ o, (world.repo.find o).isSome = true ∧ x = world.object o := by
    rintro x (⟨oid, hfound⟩ | hx)
    · exact (atHand_cases hpart hfound).imp (fun h => ⟨oid, h⟩) fun h => ⟨oid, h⟩
    · exact Or.inr (hthere x hx)
  intro x y hx hy hsame
  rcases hsource x hx with ⟨oid, hx⟩ | ⟨o, ho, rfl⟩
  · rcases hsource y hy with ⟨oid', hy⟩ | ⟨o, ho, rfl⟩
    · rw [hstored hx, hstored hy] at hsame
      subst hsame
      rw [hx] at hy
      exact Option.some.inj hy
    · rw [hstored hx, world.hashed o ho] at hsame
      subst hsame
      exact hagrees.apart oid x hx ho
  · rcases hsource y hy with ⟨oid, hy⟩ | ⟨o', ho', rfl⟩
    · rw [hstored hy, world.hashed o ho] at hsame
      subst hsame
      exact (hagrees.apart o y hy ho).symm
    · rw [world.object_inj ho ho' hsame]

theorem Agrees.gains (hagrees : Agrees printable zlib repoId world rows) {objects : List Object}
    (hthere : ∀ x ∈ objects, ∃ o, (world.repo.find o).isSome = true ∧ x = world.object o)
    (hgains : Gains printable sha1 zlib repoId rows objects rows') :
    Agrees printable zlib repoId world rows' where
  wf := hgains.wf
  apart := by
    intro oid x hx hknown
    rcases (hgains.holds oid x).mp hx with hold | ⟨hnew, hoid⟩
    · exact hagrees.apart oid x hold hknown
    · obtain ⟨o, ho, rfl⟩ := hthere x hnew
      rw [← hoid, world.hashed o ho]

theorem Complete.gains (hagrees : Agrees printable zlib repoId world rows) {objects : List Object}
    (hgains : Gains printable sha1 zlib repoId rows objects rows') {id : Oid}
    (h : Complete printable zlib repoId world rows id) :
    Complete printable zlib repoId world rows' id := by
  rw [complete_iff hagrees.wf] at h
  rw [complete_iff hgains.wf]
  exact fun o hreach hknown => (hgains.holds o _).mpr (Or.inl (h o hreach hknown))

/-- The pack of an answer delivers, whichever way it was made. -/
theorem Round.Fits.delivers (hfits : round.Fits printable zlib z repoId world rows) {pack : List UInt8}
    (h : fetchPack printable round.server.gix round.server.packObjects round.server.repoPath
      round.request = .ok pack) :
    Delivers z sha1 world round.server.repo round.wants round.haves pack := by
  unfold fetchPack at h
  split at h
  · rename_i pack' hnative
    cases h
    exact generatePack_delivers hfits.opens hfits.part hfits.native hfits.commits hfits.recent hnative
  · unfold generatePackViaPackObjects at h
    split at h
    · cases h
    · rename_i success pack' err hrun
      split_ifs at h with hfailed
      cases h
      obtain rfl : success = true := by simpa using hfailed
      exact hfits.fallback _ _ hrun

/-- What is known behind the haves is held, so a pack for a client with all of that is a
pack for this one. -/
theorem Round.Fits.holds (hfits : round.Fits printable zlib z repoId world rows)
    (hagrees : Agrees printable zlib repoId world rows) {oid : Oid}
    (hreach : ReachFrom round.server.repo.Link {h | h ∈ round.haves} oid)
    (hknown : (world.repo.find oid).isSome = true) :
    objectAt printable zlib sqliteObjectStore repoId rows oid = some (world.object oid) := by
  obtain ⟨h, hh, hpath⟩ := hfits.part.reach_whole hreach
  exact (complete_iff hagrees.wf).mp (hfits.held h hh) oid ⟨h, rfl, hpath⟩ hknown

theorem length_le_encodePack (sent : List SentEntry) (trailer : List UInt8) :
    sent.length ≤ (encodePack sent trailer).length := by
  have hentries : sent.length ≤ (encodeEntries sent).length := by
    induction sent with
    | nil => exact Nat.zero_le _
    | cons e sent ih =>
        have hpos := encode_ne_nil e
        unfold encodeEntries at ih ⊢
        rw [List.flatMap_cons, List.length_append, List.length_cons]
        omega
  rw [encodePack]
  simp only [List.length_append]
  omega

/-- What a round brings: nothing, with the server's error; objects of the world, and among
them all that were missing; or, where a base is lacking, some objects of the world. -/
inductive Round.Brings (printable : Char → Bool) (zlib : Zlib) (z : Decompress) (repoId : RepoId)
    (world : World sha1) (round : Round) (rows : LooseRows) : Result Nat → LooseRows → Prop where
  | nothing {e : Error} (hanswer : round.answer printable = .error e) :
      round.Brings printable zlib z repoId world rows (.error e) rows
  | objects {n : Nat} {xs : List Object} {rows' : LooseRows}
      (hthere : ∀ x ∈ xs, ∃ o, (world.repo.find o).isSome = true ∧ x = world.object o)
      (hmissing : ∀ o, Missing round.server.repo round.wants round.haves o → world.object o ∈ xs)
      (hgains : Gains printable sha1 zlib repoId rows xs rows') :
      round.Brings printable zlib z repoId world rows (.ok n) rows'
  | thin {e : Error} {xs : List Object} {rows' : LooseRows}
      (hthere : ∀ x ∈ xs, ∃ o, (world.repo.find o).isSome = true ∧ x = world.object o)
      (hlacks : round.Lacks printable zlib z repoId sha1 rows)
      (hgains : Gains printable sha1 zlib repoId rows xs rows') :
      round.Brings printable zlib z repoId world rows (.error e) rows'

/-- **One round.** -/
theorem Round.Fits.brings (hfits : round.Fits printable zlib z repoId world rows)
    (hagrees : Agrees printable zlib repoId world rows) :
    ∃ result rows', @Round.fetchInto printable sha1 zlib z repoId round rows = some (result, rows') ∧
      round.Brings printable zlib z repoId world rows result rows' := by
  unfold Round.fetchInto
  cases hanswer : round.answer printable with
  | error e => exact ⟨.error e, rows, rfl, .nothing hanswer⟩
  | ok response =>
      obtain ⟨pack, hpack, rfl⟩ : ∃ pack, fetchPack printable round.server.gix
          round.server.packObjects round.server.repoPath round.request = .ok pack ∧
            fetchResponse pack = response := by
        unfold Round.answer nativeV2FetchResponse at hanswer
        split at hanswer
        · cases hanswer
        · rename_i pack hpack
          exact ⟨pack, hpack, Except.ok.inj hanswer⟩
      obtain ⟨d, rfl, hthere, hmissing⟩ := hfits.delivers hpack
      have hworld : ∀ x ∈ d.objects, ∃ o, (world.repo.find o).isSome = true ∧ x = world.object o := by
        intro x hx
        obtain ⟨o, ho, rfl⟩ := hthere x hx
        exact ⟨o, hfits.part.known ho, rfl⟩
      -- the same bytes and the same objects, against what is at hand on both sides
      obtain ⟨result, rows', hruns, xs, hsent, hgains, hends⟩ := ingestPack_of_thin hagrees.wf
        (fun _ _ h => atHand_of_held h) (fun _ _ h => hagrees.hash_of_atHand hfits.part h)
        (d.forMore fun _ _ h => hagrees.atHand_of_has hfits.part h)
        (hagrees.hashesApart hfits.part hworld)
      refine ⟨result, rows', ?_, ?_⟩
      · dsimp only
        rw [receivedPack_fetchResponse]
        exact hruns d.bytes.length (length_le_encodePack d.sent d.trailer.toList)
      · cases result with
        | ok n =>
            obtain ⟨-, rfl⟩ := hends
            exact .objects hworld hmissing hgains
        | error e =>
            obtain ⟨pack, hpack', hlacks⟩ := hends
            refine .thin (fun x hx => hworld x (hsent x hx)) ?_ hgains
            refine ⟨_, d.bytes, hanswer, receivedPack_fetchResponse _, pack, ?_, hlacks⟩
            have hread := parsePack_encodePack z d.sent d.few d.streams d.trailer.toList
            rw [hpack']
            exact hread

/-- A client lacks nothing of a pack that is a shipment against what it holds. -/
theorem Round.not_lacks
    (d : Shipment z sha1 (objectAt printable zlib sqliteObjectStore repoId rows))
    (h : round.answer printable = .ok (fetchResponse d.bytes)) :
    ¬ round.Lacks printable zlib z repoId sha1 rows := by
  rintro ⟨response, bytes, hanswer, hbytes, pack, hparse, hlacks⟩
  rw [h] at hanswer
  cases hanswer
  rw [receivedPack_fetchResponse] at hbytes
  cases hbytes
  have hread := parsePack_encodePack z d.sent d.few d.streams d.trailer.toList
  exact d.plan.lacks_nothing (Except.ok.inj (hparse.symm.trans hread)) hlacks

/-- Behind a pack that was stored, the wants are complete. -/
theorem Round.Fits.complete (hfits : round.Fits printable zlib z repoId world rows)
    (hagrees : Agrees printable zlib repoId world rows) {xs : List Object}
    (hmissing : ∀ o, Missing round.server.repo round.wants round.haves o → world.object o ∈ xs)
    (hgains : Gains printable sha1 zlib repoId rows xs rows') {w : Oid} (hw : w ∈ round.wants) :
    Complete printable zlib repoId world rows' w := by
  rw [complete_iff hgains.wf]
  intro o hreach hknown
  have hthere : (round.server.repo.find w).isSome = true := by
    have hcommit := hfits.commits w hw
    cases hfind : round.server.repo.find w with
    | none =>
        rw [hfind] at hcommit
        cases hcommit
    | some _ => rfl
  have hserved : ReachFrom round.server.repo.Link {w | w ∈ round.wants} o := by
    obtain ⟨r, hr, hpath⟩ := hfits.part.reach_part (by simpa using hthere) hreach
    obtain rfl : r = w := hr
    exact ⟨r, hw, hpath⟩
  -- either the client had it, or it came with the pack
  by_cases hheld : ReachFrom round.server.repo.Link {h | h ∈ round.haves} o
  · exact (hgains.holds o _).mpr (Or.inl (hfits.holds hagrees hheld hknown))
  · exact (hgains.holds o _).mpr (Or.inr ⟨hmissing o ⟨hserved, hheld⟩, world.hashed o hknown⟩)

end Step

/-! ### Any number of rounds -/

/-- Rounds one after the other, each as the client is by then. -/
inductive Mirrors (printable : Char → Bool) {sha1 : Sha1} (zlib : Zlib) (z : Decompress)
    (repoId : RepoId) (world : World sha1) (rows : LooseRows) :
    List (Round × Result Nat) → LooseRows → Prop where
  | start : Mirrors printable zlib z repoId world rows [] rows
  | round {log : List (Round × Result Nat)} {rows' rows'' : LooseRows} {result : Result Nat}
      (round : Round) : Mirrors printable zlib z repoId world rows log rows' →
      round.Fits printable zlib z repoId world rows' →
      @Round.fetchInto printable sha1 zlib z repoId round rows' = some (result, rows'') →
      Mirrors printable zlib z repoId world rows (log ++ [(round, result)]) rows''

section Run

variable {printable : Char → Bool} {sha1 : Sha1} {zlib : Zlib} {z : Decompress} {repoId : RepoId}
  {world : World sha1} {rows rows' : LooseRows}

/-- The run lemma: objects of the world are gained, and what was fetched is complete. -/
theorem Mirrors.gains {log : List (Round × Result Nat)}
    (h : Mirrors printable zlib z repoId world rows log rows')
    (hagrees : Agrees printable zlib repoId world rows) :
    ∃ xs, (∀ x ∈ xs, ∃ o, (world.repo.find o).isSome = true ∧ x = world.object o) ∧
      Gains printable sha1 zlib repoId rows xs rows' ∧
      ∀ entry ∈ log, ∀ n, entry.2 = .ok n → ∀ w ∈ entry.1.wants,
        Complete printable zlib repoId world rows' w := by
  induction h with
  | start => exact ⟨[], by simp, Gains.none hagrees.wf, by simp⟩
  | @round log rows₁ rows₂ result round _ hfits hrun ih =>
      obtain ⟨xs, hthere, hgains, hcomplete⟩ := ih
      have hagrees' := hagrees.gains hthere hgains
      obtain ⟨result', rows₂', hrun', hbrings⟩ := hfits.brings hagrees'
      rw [hrun'] at hrun
      cases hrun
      cases hbrings with
      | nothing hanswer =>
          refine ⟨xs, hthere, hgains, fun entry hentry n hok => ?_⟩
          rcases List.mem_append.mp hentry with hearly | hlast
          · exact hcomplete entry hearly n hok
          · obtain rfl := List.mem_singleton.mp hlast
            cases hok
      | @thin e ys _ hmore _ hnew =>
          refine ⟨xs ++ ys, ?_, hgains.trans hnew, fun entry hentry n hok w hw => ?_⟩
          · intro x hx
            exact (List.mem_append.mp hx).elim (hthere x) (hmore x)
          · rcases List.mem_append.mp hentry with hearly | hlast
            · exact (hcomplete entry hearly n hok w hw).gains hagrees' hnew
            · obtain rfl := List.mem_singleton.mp hlast
              cases hok
      | @objects n ys _ hmore hmissing hnew =>
          refine ⟨xs ++ ys, ?_, hgains.trans hnew, fun entry hentry m hok w hw => ?_⟩
          · intro x hx
            exact (List.mem_append.mp hx).elim (hthere x) (hmore x)
          · rcases List.mem_append.mp hentry with hearly | hlast
            · exact (hcomplete entry hearly m hok w hw).gains hagrees' hnew
            · obtain rfl := List.mem_singleton.mp hlast
              exact hfits.complete hagrees' hmissing hnew hw

/-- **A copy that stays complete.** In a run of fetches of commits, from servers that have
parts of one world, everything behind the wants of a round that ended well is stored and
readable after it, and stays so; so the client may name these wants as haves from then on.
Only objects of the world are gained, nothing is lost, and other repositories are left alone.
The next round comes to an end.  It fails with an error of the server, having changed nothing,
or because the pack is thin and the client lacks the base of a delta. -/
theorem mirror_complete (printable : Char → Bool) (sha1 : Sha1) (zlib : Zlib) (z : Decompress)
    (repoId : RepoId) (world : World sha1) (rows rows' : LooseRows)
    (hagrees : Agrees printable zlib repoId world rows) (log : List (Round × Result Nat))
    (h : Mirrors printable zlib z repoId world rows log rows') :
    (∀ entry ∈ log, ∀ n, entry.2 = .ok n → ∀ w ∈ entry.1.wants,
        Complete printable zlib repoId world rows' w) ∧
      (∀ id, Complete printable zlib repoId world rows id →
        Complete printable zlib repoId world rows' id) ∧
      (∀ oid x, readLooseInflated printable zlib sqliteObjectStore rows repoId oid = .ok (some x) →
        readLooseInflated printable zlib sqliteObjectStore rows' repoId oid = .ok (some x)) ∧
      (∀ oid x, readLooseInflated printable zlib sqliteObjectStore rows' repoId oid = .ok (some x) →
        readLooseInflated printable zlib sqliteObjectStore rows repoId oid = .ok (some x) ∨
          ((world.repo.find oid).isSome = true ∧ x = world.object oid)) ∧
      (∀ repo oid, repo ≠ repoId →
        sqliteObjectStore.readLoose rows' repo oid = sqliteObjectStore.readLoose rows repo oid) ∧
      ∀ round : Round, round.Fits printable zlib z repoId world rows' →
        ∃ result rows'', @Round.fetchInto printable sha1 zlib z repoId round rows' =
            some (result, rows'') ∧
          ∀ e, result = .error e → (round.answer printable = .error e ∧ rows'' = rows') ∨
            round.Lacks printable zlib z repoId sha1 rows' := by
  obtain ⟨xs, hthere, hgains, hcomplete⟩ := h.gains hagrees
  simp only [readLooseInflated_eq sqliteObjectStore_lawful hagrees.wf,
    readLooseInflated_eq sqliteObjectStore_lawful hgains.wf, Except.ok.injEq]
  refine ⟨hcomplete, fun id hid => hid.gains hagrees hgains, fun oid x hx => ?_, fun oid x hx => ?_,
    hgains.others, fun round hfits => ?_⟩
  · exact (hgains.holds oid x).mpr (Or.inl hx)
  · refine ((hgains.holds oid x).mp hx).imp_right fun hnew => ?_
    obtain ⟨o, ho, rfl⟩ := hthere x hnew.1
    obtain rfl : o = oid := by rw [← hnew.2, world.hashed o ho]
    exact ⟨ho, rfl⟩
  · obtain ⟨result, rows'', hrun, hbrings⟩ := hfits.brings (hagrees.gains hthere hgains)
    refine ⟨result, rows'', hrun, fun e he => ?_⟩
    subst he
    cases hbrings with
    | nothing hanswer => exact Or.inl ⟨hanswer, rfl⟩
    | thin _ hlacks _ => exact Or.inr hlacks

end Run

/-! ### A clone, and a fetch behind it -/

def firstBlob : Object := ⟨.blob, [1, 2, 3]⟩

def secondBlob : Object := ⟨.blob, [1, 2, 3, 4]⟩

/-- A tree with one file. -/
def treeWith (name : String) (blob : Object) : Object :=
  ⟨.tree, asBytes ("100644 " ++ name) ++ 0 :: (lengthHash (looseBytes blob)).toList⟩

def firstTree : Object := treeWith "a" firstBlob

def secondTree : Object := treeWith "ab" secondBlob

def firstCommit : Object :=
  ⟨.commit, asBytes "tree 2525252525252525252525252525252525252525\ncommitter a <a@b> 8 +0000\n\nm\n"⟩

def secondCommit : Object :=
  ⟨.commit, asBytes ("tree 2626262626262626262626262626262626262626\n" ++
    "parent 5555555555555555555555555555555555555555\ncommitter a <a@b> 9 +0000\n\nm\n")⟩

def idOf (x : Object) : Oid := looseOidHex lengthHash x

def firstRepository : Repository where
  objects := [(idOf firstCommit, .commit (idOf firstTree) [] 8),
    (idOf firstTree, .tree [idOf firstBlob]), (idOf firstBlob, .blob)]
  wf := by decide +kernel

/-- The repository after one more commit. -/
def secondRepository : Repository where
  objects := firstRepository.objects ++
    [(idOf secondCommit, .commit (idOf secondTree) [idOf firstCommit] 9),
      (idOf secondTree, .tree [idOf secondBlob]), (idOf secondBlob, .blob)]
  wf := by decide +kernel

theorem firstRepository_part : PartOf firstRepository secondRepository := by
  intro o x h
  unfold Repository.find findIn at h ⊢
  obtain ⟨entry, hentry, rfl⟩ := Option.map_eq_some_iff.mp h
  rw [show secondRepository.objects = firstRepository.objects ++ _ from rfl, List.find?_append,
    hentry]
  rfl

def copyObjects : List Object :=
  [firstCommit, firstTree, firstBlob, secondCommit, secondTree, secondBlob]

theorem id_of_known {repo : Repository} {o : Oid} (h : (repo.find o).isSome = true) :
    o ∈ repo.objects.map Prod.fst := by
  obtain ⟨x, hx⟩ := Option.isSome_iff_exists.mp h
  obtain ⟨entry, hentry, -⟩ := Option.map_eq_some_iff.mp hx
  obtain rfl : entry.1 = o := by simpa using List.find?_some hentry
  exact List.mem_map_of_mem (List.mem_of_find?_eq_some hentry)

theorem known_of_committerTime {repo : Repository} {c : Oid} {time : Int}
    (h : repo.committerTime c = some time) : (repo.find c).isSome = true := by
  unfold Repository.committerTime at h
  cases hfind : repo.find c with
  | none =>
      rw [hfind] at h
      cases h
  | some _ => rfl

def copyWorld : World lengthHash where
  repo := secondRepository
  object o := (copyObjects.find? fun x => idOf x == o).getD firstBlob
  hashed o ho := (by decide +kernel : ∀ o ∈ secondRepository.objects.map Prod.fst,
    idOf ((copyObjects.find? fun x => idOf x == o).getD firstBlob) = o) o (id_of_known ho)

/-- An object, whole. -/
def sentWhole (x : Object) (h : x.payload.length ≤ maxEntryBytes) : SentEntry where
  kind := .direct x.kind
  data := x.payload
  stream := storedStream x.payload
  small := h
  near delta hdelta := by cases hdelta

/-- The second blob, as a delta of the first. -/
def sentThin : SentEntry where
  kind := .refDelta (lengthHash (looseBytes firstBlob))
  data := [3, 4, 0x90, 3, 1, 4]
  stream := storedStream [3, 4, 0x90, 3, 1, 4]
  small := by decide
  near delta hdelta := by cases hdelta

def firstSent : List SentEntry :=
  [sentWhole firstCommit (by decide +kernel), sentWhole firstTree (by decide +kernel),
    sentWhole firstBlob (by decide)]

/-- The base of the delta is not sent. -/
def secondSent : List SentEntry :=
  [sentWhole secondCommit (by decide +kernel), sentWhole secondTree (by decide +kernel), sentThin]

/-- Each entry is sent for what it holds, and the delta for the second blob. -/
def copyPlan {sent : List SentEntry} (hsent : ∀ e ∈ sent, e = sentThin ∨ ∃ x h, e = sentWhole x h)
    (stored : Oid → Option Object) (hbase : sentThin ∈ sent → stored (idOf firstBlob) = some firstBlob) :
    Plan lengthHash stored (placeFrom 12 sent) where
  object e :=
    match e.kind with
    | .direct kind => ⟨kind, e.data⟩
    | _ => secondBlob
  depth _ := 0
  direct e he kind hkind := by rw [hkind]
  ofs e he delta hkind := by
    obtain ⟨sender, hsender, hsame, -⟩ := mem_placeFrom he
    rw [hsame] at hkind
    rcases hsent sender hsender with rfl | ⟨x, h, rfl⟩ <;> cases hkind
  ref e he oid hkind := by
    obtain ⟨sender, hsender, hsame, hdata⟩ := mem_placeFrom he
    rw [hsame] at hkind
    rcases hsent sender hsender with rfl | ⟨x, h, rfl⟩
    · cases hkind
      refine ⟨firstBlob, ?_, Or.inl (hbase hsender)⟩
      rw [hsame, hdata]
      exact patches_iff.mpr ⟨rfl, by decide⟩
    · cases hkind

theorem firstSent_cases : ∀ e ∈ firstSent, e = sentThin ∨ ∃ x h, e = sentWhole x h := by
  intro e he
  rcases List.mem_cons.mp he with rfl | he
  · exact Or.inr ⟨_, _, rfl⟩
  · rcases List.mem_pair.mp he with rfl | rfl <;> exact Or.inr ⟨_, _, rfl⟩

theorem secondSent_cases : ∀ e ∈ secondSent, e = sentThin ∨ ∃ x h, e = sentWhole x h := by
  intro e he
  rcases List.mem_cons.mp he with rfl | he
  · exact Or.inr ⟨_, _, rfl⟩
  · rcases List.mem_pair.mp he with rfl | rfl
    · exact Or.inr ⟨_, _, rfl⟩
    · exact Or.inl rfl

/-- The streams are those of the decoder. -/
theorem sent_inflates {sent : List SentEntry} (hsent : ∀ e ∈ sent, e = sentThin ∨ ∃ x h, e = sentWhole x h)
    (hshort : ∀ e ∈ sent, e.data.length < 2 ^ 16) :
    ∀ e ∈ sent, Inflates storedDecoder e.stream e.data := by
  intro e he
  have hfits := hshort e he
  rcases hsent e he with rfl | ⟨x, h, rfl⟩
  · exact inflates_storedStream hfits
  · exact inflates_storedStream hfits

theorem thin_not_first : sentThin ∉ firstSent := by
  intro h
  have hwhole : ∀ e ∈ firstSent, ∃ kind, e.kind = .direct kind := by
    intro e he
    rcases List.mem_cons.mp he with rfl | he
    · exact ⟨_, rfl⟩
    · rcases List.mem_pair.mp he with rfl | rfl <;> exact ⟨_, rfl⟩
  obtain ⟨kind, hkind⟩ := hwhole sentThin h
  cases hkind

def firstShipment (stored : Oid → Option Object) : Shipment storedDecoder lengthHash stored where
  sent := firstSent
  trailer := Vector.replicate 20 0
  few := by decide
  streams := sent_inflates firstSent_cases (by decide +kernel)
  plan := copyPlan firstSent_cases stored fun h => absurd h thin_not_first

def secondShipment (stored : Oid → Option Object) (hbase : stored (idOf firstBlob) = some firstBlob) :
    Shipment storedDecoder lengthHash stored where
  sent := secondSent
  trailer := Vector.replicate 20 0
  few := by decide
  streams := sent_inflates secondSent_cases (by decide +kernel)
  plan := copyPlan secondSent_cases stored fun _ => hbase

theorem secondRepository_has : copyWorld.has secondRepository (idOf firstBlob) = some firstBlob := by
  decide +kernel

/-- A gix that knows of one commit to send. -/
def oneCommitGix (repo : Repository) (commit : Oid) (sent : List Oid) (bytes : List UInt8) : Gix where
  openRepo := .ok repo
  fromHexError _ := "Invalid character encountered"
  revWalk _ _ _ := .ok [.ok commit]
  countObjects _ commits := if commits = [commit] then .ok sent else .error "unexpected commits"
  writeEntries _ counts _ := if counts = sent then .ok bytes else .error "unexpected counts"

theorem oneCommitGix_writes {repo : Repository} {commit tree blob : Oid} {haves : List Oid}
    (hparents : ∀ p ∈ repo.parents commit, p ∈ haves) (hnew : commit ∉ haves)
    (hrecent : repo.Recent (repo.oldest haves) commit) (htree : repo.treeOf commit = some tree)
    (hentries : repo.entries tree = [blob]) (hblob : repo.entries blob = [])
    (hknown : ∀ o ∈ [commit, tree, blob], (repo.find o).isSome = true)
    (d : Shipment storedDecoder lengthHash (copyWorld.has repo))
    (hobjects : d.objects = [commit, tree, blob].map copyWorld.object) :
    GixWrites storedDecoder lengthHash copyWorld
      (oneCommitGix repo commit [commit, tree, blob] d.bytes) repo [commit] haves where
  walk := by
    intro ids hids c
    have hlist : ids = [commit] := by
      have hmap : ids.map Except.ok = [commit].map (Except.ok : Oid → Except String Oid) :=
        (Except.ok.inj hids).symm
      exact List.map_injective_iff.mpr (fun _ _ h => Except.ok.inj h) hmap
    rw [hlist, List.mem_singleton]
    constructor
    · rintro rfl
      exact PrunedFrom.root List.mem_cons_self ⟨hnew, hrecent⟩
    · -- behind the one commit there are only haves, where the walk does not go
      intro hc
      induction hc with
      | root hr _ => exact List.mem_singleton.mp hr
      | step _ hstep hkeep ih =>
          rw [ih] at hstep
          exact absurd (hparents _ hstep) hkeep.1
  count := by
    intro commits counts h o
    simp only [oneCommitGix] at h
    split_ifs at h with hcommits
    cases h
    subst hcommits
    -- the tree has one entry and nothing below it
    have hin : repo.InTreeOf commit o ↔ o = tree ∨ o = blob := by
      constructor
      · rintro ⟨root, hroot, hpath⟩
        rw [htree] at hroot
        obtain rfl := Option.some.inj hroot
        rcases Relation.ReflTransGen.cases_head hpath with rfl | ⟨b, hb, hpath⟩
        · exact Or.inl rfl
        · rw [Repository.Entry, hentries, List.mem_singleton] at hb
          subst hb
          rcases Relation.ReflTransGen.cases_head hpath with rfl | ⟨c, hc, -⟩
          · exact Or.inr rfl
          · rw [Repository.Entry, hblob] at hc
            cases hc
      · rintro (rfl | rfl)
        · exact ⟨o, htree, Relation.ReflTransGen.refl⟩
        · refine ⟨tree, htree, Relation.ReflTransGen.single ?_⟩
          rw [Repository.Entry, hentries]
          exact List.mem_cons_self
    simp [hin]
  write := by
    intro counts n bytes h
    simp only [oneCommitGix] at h
    split_ifs at h with hcounts
    cases h
    subst hcounts
    refine ⟨hknown, d, rfl, fun x => ?_⟩
    rw [hobjects, List.mem_map]
    exact exists_congr fun o => and_congr_right fun _ => eq_comm

/-- The clone wants the first commit. -/
def cloneRound : Round where
  server :=
    { repo := firstRepository
      gix := oneCommitGix firstRepository (idOf firstCommit)
        [idOf firstCommit, idOf firstTree, idOf firstBlob]
        (firstShipment (copyWorld.has firstRepository)).bytes
      packObjects := fun _ => .error (.other "git is not installed")
      repoPath := "demo.git" }
  body := writeFlush (writeData (writeData (writeData [] (asBytes "command=fetch\n") ++
    asBytes "0001") (asBytes ("want " ++ (idOf firstCommit).text ++ "\n"))) (asBytes "done\n"))
  request := { V2FetchRequest.empty with wants := [(idOf firstCommit).text], done := true }
  taken := by decide +kernel

/-- The fetch wants the second commit, and has the first. -/
def fetchRound : Round where
  server :=
    { repo := secondRepository
      gix := oneCommitGix secondRepository (idOf secondCommit)
        [idOf secondCommit, idOf secondTree, idOf secondBlob]
        (secondShipment _ secondRepository_has).bytes
      packObjects := fun _ => .error (.other "git is not installed")
      repoPath := "demo.git" }
  body := writeFlush (writeData (writeData (writeData (writeData [] (asBytes "command=fetch\n") ++
    asBytes "0001") (asBytes ("want " ++ (idOf secondCommit).text ++ "\n")))
    (asBytes ("have " ++ (idOf firstCommit).text ++ "\n"))) (asBytes "done\n"))
  request := { V2FetchRequest.empty with
    wants := [(idOf secondCommit).text], haves := [(idOf firstCommit).text], done := true }
  taken := by decide +kernel

theorem cloneRound_asks : cloneRound.wants = [idOf firstCommit] ∧ cloneRound.haves = [] := by
  decide +kernel

theorem fetchRound_asks :
    fetchRound.wants = [idOf secondCommit] ∧ fetchRound.haves = [idOf firstCommit] := by
  decide +kernel

theorem cloneRound_fits (rows : LooseRows) :
    cloneRound.Fits (fun _ => true) plainZlib storedDecoder sampleRepo copyWorld rows where
  opens repo h := (Except.ok.inj h).symm
  part := firstRepository_part
  commits := by
    rw [cloneRound_asks.1]
    decide +kernel
  recent := by
    rw [cloneRound_asks.2]
    exact noneOlder_clone firstRepository _
  native := by
    rw [cloneRound_asks.1, cloneRound_asks.2]
    refine oneCommitGix_writes (by decide +kernel) (by simp) ⟨8, by decide +kernel, ?_⟩
      (by decide +kernel) (by decide +kernel) (by decide +kernel) (by decide +kernel) _
      (by decide +kernel)
    intro cutoff hcutoff
    cases hcutoff
  fallback pack err h := by cases h
  held h hh := by
    rw [cloneRound_asks.2] at hh
    cases hh

theorem fetchRound_fits {rows : LooseRows}
    (hheld : Complete (fun _ => true) plainZlib sampleRepo copyWorld rows (idOf firstCommit)) :
    fetchRound.Fits (fun _ => true) plainZlib storedDecoder sampleRepo copyWorld rows where
  opens repo h := (Except.ok.inj h).symm
  part _ _ h := h
  commits := by
    rw [fetchRound_asks.1]
    decide +kernel
  recent := by
    rw [fetchRound_asks.1, fetchRound_asks.2]
    intro c time htime _ cutoff hcutoff
    have hold : ∀ c ∈ secondRepository.objects.map Prod.fst,
        ∀ time ∈ secondRepository.committerTime c, 8 ≤ time := by
      decide +kernel
    obtain rfl : (8 : Int) = cutoff := Option.some.inj
      ((by decide +kernel : secondRepository.oldest [idOf firstCommit] = some 8).symm.trans hcutoff)
    exact hold c (id_of_known (known_of_committerTime htime)) time htime
  native := by
    rw [fetchRound_asks.1, fetchRound_asks.2]
    refine oneCommitGix_writes (by decide +kernel) (by decide +kernel) ⟨9, by decide +kernel, ?_⟩
      (by decide +kernel) (by decide +kernel) (by decide +kernel) (by decide +kernel) _
      (by decide +kernel)
    intro cutoff hcutoff
    obtain rfl : (8 : Int) = cutoff := Option.some.inj
      ((by decide +kernel : secondRepository.oldest [idOf firstCommit] = some 8).symm.trans hcutoff)
    decide
  fallback pack err h := by cases h
  held h hh := by
    rw [fetchRound_asks.2] at hh
    obtain rfl := List.mem_singleton.mp hh
    exact hheld

theorem cloneRound_answer : cloneRound.answer (fun _ => true) =
    .ok (fetchResponse (firstShipment fun _ => none).bytes) := by
  rfl

set_option maxRecDepth 2000 in
theorem fetchRound_answer {stored : Oid → Option Object}
    (hbase : stored (idOf firstBlob) = some firstBlob) : fetchRound.answer (fun _ => true) =
    .ok (fetchResponse (secondShipment stored hbase).bytes) := by
  rfl

theorem agrees_empty : Agrees (fun _ => true) plainZlib sampleRepo copyWorld fun _ => none := by
  constructor
  · intro oid bytes h
    cases h
  · intro oid x h
    cases h

/-- Everything is behind the second commit. -/
theorem reach_second : ∀ o ∈ secondRepository.objects.map Prod.fst,
    ReachFrom secondRepository.Link {idOf secondCommit} o := by
  have hlink : ∀ a b, b ∈ secondRepository.links a → ReachFrom secondRepository.Link {idOf secondCommit} a →
      ReachFrom secondRepository.Link {idOf secondCommit} b := fun a b hb ha => ha.step hb
  have hroot : ReachFrom secondRepository.Link {idOf secondCommit} (idOf secondCommit) :=
    ReachFrom.root rfl
  have htree := hlink _ (idOf secondTree) (by decide +kernel) hroot
  have hblob := hlink _ (idOf secondBlob) (by decide +kernel) htree
  have hparent := hlink _ (idOf firstCommit) (by decide +kernel) hroot
  have htree' := hlink _ (idOf firstTree) (by decide +kernel) hparent
  have hblob' := hlink _ (idOf firstBlob) (by decide +kernel) htree'
  have hids : secondRepository.objects.map Prod.fst = [idOf firstCommit, idOf firstTree,
    idOf firstBlob, idOf secondCommit, idOf secondTree, idOf secondBlob] := rfl
  rw [hids]
  simp only [List.forall_mem_cons, List.not_mem_nil, false_imp_iff, implies_true, and_true]
  exact ⟨hparent, htree', hblob', hroot, htree, hblob⟩

/-- The clone brings the first commit.  The fetch names it as a have, gets a thin pack, and
has everything of the second repository behind it. -/
theorem mirror_complete_fetch :
    ∃ n m rows rows', @Round.fetchInto (fun _ => true) lengthHash plainZlib storedDecoder sampleRepo
        cloneRound (fun _ => none) = some (.ok n, rows) ∧
      @Round.fetchInto (fun _ => true) lengthHash plainZlib storedDecoder sampleRepo
        fetchRound rows = some (.ok m, rows') ∧
      ∀ o ∈ secondRepository.objects.map Prod.fst,
        readLooseInflated (fun _ => true) plainZlib sqliteObjectStore rows' sampleRepo o =
          .ok (some (copyWorld.object o)) := by
  have hfits := cloneRound_fits fun _ => none
  obtain ⟨result, rows, hrun, hbrings⟩ := hfits.brings agrees_empty
  obtain ⟨n, rfl⟩ : ∃ n, result = .ok n := by
    cases hbrings with
    | nothing hanswer => cases hanswer.symm.trans cloneRound_answer
    | thin _ hlacks _ => exact absurd hlacks (Round.not_lacks (firstShipment _) cloneRound_answer)
    | @objects n => exact ⟨n, rfl⟩
  have hcloned := Mirrors.round cloneRound .start hfits hrun
  obtain ⟨hcomplete, -⟩ := mirror_complete _ _ _ storedDecoder _ _ _ rows agrees_empty _ hcloned
  have hfirst : Complete (fun _ => true) plainZlib sampleRepo copyWorld rows (idOf firstCommit) := by
    refine hcomplete _ List.mem_cons_self n rfl (idOf firstCommit) ?_
    rw [cloneRound_asks.1]
    exact List.mem_cons_self
  obtain ⟨xs, hthere, hgains, -⟩ := hcloned.gains agrees_empty
  have hagrees := agrees_empty.gains hthere hgains
  have hblob : objectAt (fun _ => true) plainZlib sqliteObjectStore sampleRepo rows (idOf firstBlob) =
      some firstBlob := by
    have hreach : ReachFrom secondRepository.Link {idOf firstCommit} (idOf firstBlob) := by
      have hroot : ReachFrom secondRepository.Link {idOf firstCommit} (idOf firstCommit) :=
        ReachFrom.root rfl
      have htree : idOf firstTree ∈ secondRepository.links (idOf firstCommit) := by decide +kernel
      have hblob : idOf firstBlob ∈ secondRepository.links (idOf firstTree) := by decide +kernel
      exact (hroot.step htree).step hblob
    exact (complete_iff hagrees.wf).mp hfirst _ hreach (by decide +kernel)
  have hfits' := fetchRound_fits hfirst
  obtain ⟨result, rows', hrun', hbrings'⟩ := hfits'.brings hagrees
  obtain ⟨m, rfl⟩ : ∃ m, result = .ok m := by
    cases hbrings' with
    | nothing hanswer => cases hanswer.symm.trans (fetchRound_answer hblob)
    | thin _ hlacks _ =>
        exact absurd hlacks (Round.not_lacks (secondShipment _ hblob) (fetchRound_answer hblob))
    | @objects m => exact ⟨m, rfl⟩
  obtain ⟨hboth, -⟩ := mirror_complete _ _ _ storedDecoder _ _ _ rows' agrees_empty _
    (hcloned.round fetchRound hfits' hrun')
  refine ⟨n, m, rows, rows', hrun, hrun', fun o ho => ?_⟩
  refine hboth (fetchRound, .ok m) (by simp) m rfl (idOf secondCommit) ?_ o (reach_second o ho) ?_
  · rw [fetchRound_asks.1]
    exact List.mem_cons_self
  · exact (by decide +kernel : ∀ o ∈ secondRepository.objects.map Prod.fst,
      (secondRepository.find o).isSome = true) o ho

end SmartHttp
end Artifacts
