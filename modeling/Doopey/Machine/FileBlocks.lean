import Doopey.Foundation.Holdings
import Doopey.Machine.StorageDownload

/-!
# Whose the blocks are

Every block belongs to at most one file, or to one upload that is under way. An upload gets
blocks that nobody has, and hands them over to its file.
-/

namespace Doopey

open Foundation FileUploader Client

namespace BlockNet

/-- The blocks that a meta block lists, as it was first saved. -/
def listedIDs (net : BlockNet) (id : BlockID) : List BlockID :=
  match net.first id with
  | some data => (MetaBlock.ofData data id >>= MetaBlock.dataIDs).toOption.getD []
  | none => []

/-- The block is a meta block, or listed there. -/
def OfFile (net : BlockNet) (id other : BlockID) : Prop := other = id ∨ other ∈ net.listedIDs id

section Lists

variable {net net' : BlockNet} {id other : BlockID} {ids : List BlockID}

theorem KeepsOn.listedIDs_eq {kept : BlockID → Prop} (h : net.KeepsOn kept net')
    (hfirst : net.first id ≠ none) : net'.listedIDs id = net.listedIDs id := by
  obtain ⟨data, hdata⟩ := Option.ne_none_iff_exists'.mp hfirst
  rw [listedIDs, listedIDs, hdata, h.first hdata]

end Lists

end BlockNet

/-- The blocks that were saved for an upload. -/
def Session.listedIDs (session : Session) : List BlockID :=
  session.metaBlock.dataIDs.toOption.getD []

section Archives

variable {net : BlockNet} {has : BlockID → Bytes → Prop} {file : PutFile} {session : Session}
  {id other : BlockID} {ids : List BlockID}

/-- A meta block that is archived lists the blocks of its file. -/
theorem Archived.listedIDs_eq (h : Archived net.FirstIs file id ids) (hname : file.path ≠ []) :
    net.listedIDs id = ids := by
  obtain ⟨⟨data, hlaid, hfirst⟩, -⟩ := h
  obtain ⟨block, hblock, -, -, hdescribes⟩ := hlaid.ofData hname id
  unfold BlockNet.FirstIs at hfirst
  rw [BlockNet.listedIDs, hfirst]
  dsimp only
  rw [hblock, ok_bind, hdescribes.usable.dataIDs_eq]
  rfl

theorem Session.Under.listedIDs_eq (h : session.Under has ids) : session.listedIDs = ids := by
  have husable : session.metaBlock.Usable ids := by
    cases h with
    | starts hmeta hleft =>
        obtain ⟨block, hnew, husable, -⟩ := MetaBlock.usable_newMeta
        obtain rfl := Except.ok.inj (hnew.symm.trans hmeta)
        exact husable
    | sends ids done rest hpieces hleft hid hdescribes hstored => exact hdescribes.usable
  rw [Session.listedIDs, husable.dataIDs_eq]
  rfl

/-- The blocks of a file were saved. -/
theorem Archived.first_ne_none (h : Archived net.FirstIs file id ids) (hname : file.path ≠ [])
    (hof : net.OfFile id other) : net.first other ≠ none := by
  rcases hof with rfl | hmem
  · obtain ⟨⟨data, -, hfirst⟩, -⟩ := h
    rw [hfirst]
    exact Option.some_ne_none data
  · rw [h.listedIDs_eq hname] at hmem
    obtain ⟨piece, -, hfirst⟩ := exists_of_mem_left h.2 hmem
    rw [hfirst]
    exact Option.some_ne_none _

/-- The blocks of an upload were saved. -/
theorem Session.Under.first_ne_none (h : session.Under net.FirstIs ids)
    (hmem : other ∈ session.listedIDs) : net.first other ≠ none := by
  rw [h.listedIDs_eq] at hmem
  cases h with
  | starts hmeta hleft => cases hmem
  | sends ids done rest hpieces hleft hid hdescribes hstored =>
      obtain ⟨piece, -, hfirst⟩ := exists_of_mem_left hstored hmem
      rw [hfirst]
      exact Option.some_ne_none _

end Archives

/-- What blocks can belong to. -/
inductive Party
  | file (id : BlockID)
  | upload (n : MachineID) (k : Nat)
  deriving DecidableEq

namespace Party

/-- The party that it was before a machine took a new upload up. -/
def beforePut (n : MachineID) : Party → Party
  | .file id => .file id
  | .upload m k => .upload m (if m = n then k - 1 else k)

/-- The party that it was before an upload was over. -/
def beforeEnd (n : MachineID) (k : Nat) : Party → Party
  | .file id => .file id
  | .upload m j => .upload m (if m = n then if k ≤ j then j + 1 else j else j)

/-- The party that it was before an upload became a file. -/
def beforeFile (n : MachineID) (k : Nat) (id : BlockID) : Party → Party :=
  Function.update (beforeEnd n k) (.file id) (.upload n k)

theorem eq_of_beforePut {n : MachineID} {p q : Party} (hp : p ≠ .upload n 0)
    (hq : q ≠ .upload n 0) (heq : beforePut n p = beforePut n q) : p = q := by
  cases p with
  | file id =>
      cases q with
      | file id' => exact heq
      | upload m j => cases heq
  | upload m j =>
      cases q with
      | file id' => cases heq
      | upload m' j' =>
          simp only [beforePut, upload.injEq, ne_eq, not_and] at hp hq heq ⊢
          obtain ⟨rfl, heq⟩ := heq
          refine ⟨rfl, ?_⟩
          by_cases hm : m = n
          · rw [if_pos hm, if_pos hm] at heq
            have hj := hp hm
            have hj' := hq hm
            omega
          · rw [if_neg hm, if_neg hm] at heq
            exact heq

theorem injective_beforeEnd (n : MachineID) (k : Nat) :
    Function.Injective (beforeEnd n k) := by
  intro p q heq
  cases p with
  | file id =>
      cases q with
      | file id' => exact heq
      | upload m j => cases heq
  | upload m j =>
      cases q with
      | file id' => cases heq
      | upload m' j' =>
          simp only [beforeEnd, upload.injEq] at heq ⊢
          obtain ⟨rfl, heq⟩ := heq
          refine ⟨rfl, ?_⟩
          by_cases hm : m = n
          · rw [if_pos hm, if_pos hm] at heq
            split at heq <;> split at heq <;> omega
          · rw [if_neg hm, if_neg hm] at heq
            exact heq

theorem beforeEnd_ne (n : MachineID) (k : Nat) (p : Party) : beforeEnd n k p ≠ .upload n k := by
  cases p with
  | file id => simp [beforeEnd]
  | upload m j =>
      simp only [beforeEnd, ne_eq, upload.injEq, not_and]
      rintro rfl
      rw [if_pos rfl]
      split <;> omega

theorem injective_beforeFile (n : MachineID) (k : Nat) (id : BlockID) :
    Function.Injective (beforeFile n k id) := by
  intro p q heq
  rw [beforeFile, Function.update_apply, Function.update_apply] at heq
  split at heq
  next hp =>
    split at heq
    next hq => rw [hp, hq]
    next => exact absurd heq.symm (beforeEnd_ne n k q)
  next =>
    split at heq
    next => exact absurd heq (beforeEnd_ne n k p)
    next => exact injective_beforeEnd n k heq

end Party

namespace StorageNet

/-- A file has its meta block and the blocks that are listed there, and an upload has the blocks
that were saved for it. -/
def Holds (s : StorageNet) : Party → BlockID → Prop
  | .file id, other => (∃ file, (id, file) ∈ s.completed) ∧ s.net.OfFile id other
  | .upload n k, other => ∃ session, (s.sessions n)[k]? = some session ∧ other ∈ session.listedIDs

section Steps

variable {blockReplica : UInt64} {s s' : StorageNet} {kept : BlockID → Prop}

/-- Whatever belongs to somebody was saved. -/
theorem Filed.first_ne_none (h : s.Filed s.net.FirstIs) {p : Party} {other : BlockID}
    (hholds : s.Holds p other) : s.net.first other ≠ none := by
  cases p with
  | file id =>
      obtain ⟨⟨file, hmem⟩, hof⟩ := hholds
      obtain ⟨-, -, hname, ids, harchives⟩ := h.completed hmem
      exact harchives.first_ne_none hname hof
  | upload n k =>
      obtain ⟨session, hfound, hmem⟩ := hholds
      obtain ⟨-, -, ids, hunder⟩ := h.session (List.mem_of_getElem? hfound)
      exact hunder.first_ne_none hmem

/-- A file that was uploaded keeps its blocks. -/
theorem Filed.holds_file (h : s.Filed s.net.FirstIs) {net : BlockNet}
    (hkeeps : s.net.KeepsOn kept net) {id other : BlockID} {file : PutFile} (hmem : (id, file) ∈ s.completed)
    (hof : net.OfFile id other) : s.Holds (.file id) other := by
  obtain ⟨-, -, hname, ids, harchives⟩ := h.completed hmem
  refine ⟨⟨file, hmem⟩, ?_⟩
  rw [BlockNet.OfFile, ← hkeeps.listedIDs_eq (harchives.first_ne_none hname (Or.inl rfl))]
  exact hof

/-- What an upload has while those on one machine change. -/
theorem holds_upload {n m : MachineID} {j : Nat} {net : BlockNet} {tree : FileTree}
    {sessions : List Session} {sent : List Message} {completed : List (BlockID × PutFile)}
    {other : BlockID} (hholds : Holds { s.serve n net tree sessions with
      sent := sent, completed := completed } (.upload m j) other) :
    m ≠ n ∧ s.Holds (.upload m j) other ∨
      m = n ∧ ∃ session, sessions[j]? = some session ∧ other ∈ session.listedIDs := by
  obtain ⟨session, hfound, hmem⟩ := hholds
  by_cases hm : m = n
  · subst hm
    rw [sessions_serve_self] at hfound
    exact Or.inr ⟨rfl, session, hfound, hmem⟩
  · have hsessions : (s.serve n net tree sessions).sessions m = s.sessions m :=
      Function.update_of_ne hm _ _
    exact Or.inl ⟨hm, session, hsessions ▸ hfound, hmem⟩

theorem holds_beforeEnd {n : MachineID} {k : Nat} {net : BlockNet} {tree : FileTree}
    {sent : List Message} {completed : List (BlockID × PutFile)} {m : MachineID} {j : Nat}
    {other : BlockID} (hholds : Holds { s.serve n net tree ((s.sessions n).eraseIdx k) with
      sent := sent, completed := completed } (.upload m j) other) :
    s.Holds (Party.beforeEnd n k (.upload m j)) other := by
  rcases holds_upload hholds with ⟨hm, hold⟩ | ⟨rfl, session, hfound, hmem⟩
  · rw [Party.beforeEnd, if_neg hm]
    exact hold
  · rw [List.getElem?_eraseIdx] at hfound
    rw [Party.beforeEnd, if_pos rfl]
    refine ⟨session, ?_, hmem⟩
    split at hfound
    next hj => rw [if_neg (Nat.not_le.mpr hj), hfound]
    next hj => rw [if_pos (Nat.not_lt.mp hj), hfound]

section Sessions

variable {net : BlockNet} {n : MachineID} {k : Nat} {session : Session} {tree : FileTree}
  {sent : List Message}

/-- The files and the uploads stay as they are. -/
theorem Filed.exclusive_of_keeps (h : s.Filed s.net.FirstIs) (hapart : Exclusive s.Holds)
    (hkeeps : s.net.KeepsOn kept net) (cleanups : MachineID → List (List BlockID)) :
    Exclusive (Holds { s with net := net, cleanups := cleanups }) := by
  refine hapart.hand_over id (fun _ _ heq => heq) fun {p other} hholds => ?_
  cases p with
  | file id =>
      obtain ⟨⟨file, hmem⟩, hof⟩ := hholds
      exact h.holds_file hkeeps hmem hof
  | upload m j => exact hholds

/-- A machine goes over to another tree. -/
theorem exclusive_replant (hapart : Exclusive s.Holds) : Exclusive
    (Holds { s.serve n s.net tree (s.sessions n) with sent := sent }) := by
  refine hapart.hand_over id (fun _ _ heq => heq) fun {p other} hholds => ?_
  cases p with
  | file id => exact hholds
  | upload m j =>
      rcases holds_upload hholds with ⟨-, hold⟩ | ⟨rfl, hold⟩
      · exact hold
      · exact hold

/-- A new upload has nothing yet. -/
theorem exclusive_put (hapart : Exclusive s.Holds) (hnil : session.listedIDs = []) :
    Exclusive (s.serve n s.net tree (session :: s.sessions n)).Holds := by
  have hnone (other : BlockID) : ¬ (s.serve n s.net tree (session :: s.sessions n)).Holds
      (.upload n 0) other := by
    intro hholds
    rcases holds_upload hholds with ⟨hm, -⟩ | ⟨-, session', hfound, hmem⟩
    · exact hm rfl
    · obtain rfl := Option.some.inj hfound
      rw [hnil] at hmem
      cases hmem
  refine hapart.hand_over (Party.beforePut n) (fun {p q _ _} hp hq heq => ?_)
    fun {p other} hholds => ?_
  · refine Party.eq_of_beforePut ?_ ?_ heq
    · rintro rfl
      exact hnone _ hp
    · rintro rfl
      exact hnone _ hq
  · cases p with
    | file id => exact hholds
    | upload m j =>
        rcases holds_upload hholds with ⟨hm, hold⟩ | ⟨rfl, session', hfound, hmem⟩
        · rw [Party.beforePut, if_neg hm]
          exact hold
        · cases j with
          | zero => exact absurd hholds (hnone other)
          | succ i =>
              rw [Party.beforePut, if_pos rfl]
              exact ⟨session', hfound, hmem⟩

/-- An upload gets a block that nobody has. -/
theorem Filed.exclusive_goesOn (h : s.Filed s.net.FirstIs) (hapart : Exclusive s.Holds)
    (hkeeps : s.net.KeepsOn kept net) (hfound : (s.sessions n)[k]? = some session)
    {session' : Session} {id : BlockID} (hnew : s.net.first id = none)
    (hids : ∀ other ∈ session'.listedIDs, other ∈ session.listedIDs ∨ other = id) :
    Exclusive (s.serve n net tree ((s.sessions n).set k session')).Holds := by
  refine hapart.take (fun p => p) (.upload n k) (fun p hholds => h.first_ne_none hholds hnew)
    (fun _ _ heq => heq) fun {p other} hholds => ?_
  cases p with
  | file id =>
      obtain ⟨⟨file, hmem⟩, hof⟩ := hholds
      exact Or.inl (h.holds_file hkeeps hmem hof)
  | upload m j =>
      rcases holds_upload hholds with ⟨-, hold⟩ | ⟨rfl, after, hafter, hmem⟩
      · exact Or.inl hold
      · rw [List.getElem?_set] at hafter
        split at hafter
        next hj =>
          subst hj
          split at hafter
          next =>
            obtain rfl := Option.some.inj hafter
            exact (hids other hmem).imp (fun hold => ⟨session, hfound, hold⟩)
              fun heq => ⟨rfl, heq⟩
          next => cases hafter
        next => exact Or.inl ⟨after, hafter, hmem⟩

/-- The blocks of an upload that fails are nobody's. -/
theorem Filed.exclusive_fails (h : s.Filed s.net.FirstIs) (hapart : Exclusive s.Holds)
    (hkeeps : s.net.KeepsOn kept net) :
    Exclusive (s.serve n net tree ((s.sessions n).eraseIdx k)).Holds := by
  refine hapart.hand_over (Party.beforeEnd n k)
    (fun _ _ heq => Party.injective_beforeEnd n k heq) fun {p other} hholds => ?_
  cases p with
  | file id =>
      obtain ⟨⟨file, hmem⟩, hof⟩ := hholds
      exact h.holds_file hkeeps hmem hof
  | upload m j => exact holds_beforeEnd hholds

/-- A file gets the blocks of its upload, with a meta block that nobody has. -/
theorem Filed.exclusive_completes (h : s.Filed s.net.FirstIs) (hapart : Exclusive s.Holds)
    (hkeeps : s.net.KeepsOn kept net) (hfound : (s.sessions n)[k]? = some session)
    {id : BlockID} {file : PutFile} (hnew : s.net.first id = none)
    (hids : net.listedIDs id = session.listedIDs) : Exclusive
      (Holds { s.serve n net tree ((s.sessions n).eraseIdx k) with
        sent := sent, completed := (id, file) :: s.completed }) := by
  refine hapart.take (Party.beforeFile n k id) (.file id)
    (fun p hholds => h.first_ne_none hholds hnew)
    (fun _ _ heq => Party.injective_beforeFile n k id heq) fun {p other} hholds => ?_
  rw [Party.beforeFile, Function.update_apply]
  cases p with
  | file id' =>
      obtain ⟨⟨file', hmem⟩, hof⟩ := hholds
      split
      next hp =>
        obtain rfl := Party.file.inj hp
        rcases hof with rfl | hlisted
        · exact Or.inr ⟨rfl, rfl⟩
        · have hsaved : other ∈ session.listedIDs := hids ▸ hlisted
          exact Or.inl ⟨session, hfound, hsaved⟩
      next hp =>
        rcases List.mem_cons.mp hmem with heq | hold
        · exact absurd (congrArg Party.file (Prod.mk.inj heq).1) hp
        · exact Or.inl (h.holds_file hkeeps hold hof)
  | upload m j =>
      rw [if_neg (by simp)]
      exact Or.inl (holds_beforeEnd hholds)

end Sessions

/-- Nobody loses a block to somebody else. -/
theorem Filed.exclusive_of_step (h : s.Filed s.net.FirstIs) (hapart : Exclusive s.Holds)
    {event : StorageEvent} (hstep : StorageStep blockReplica s event s')
    (hkeeps : s.net.KeepsOn kept s'.net)
    (hfiles : ∀ n id data, (s'.net.nodes n).files id = some data → s'.net.FirstIs id data)
    (hopens : ∀ n k opens, event = .receive n k opens → opens = true)
    (hfresh : ∀ n k, event = .receive n k true → s.net.first (s.nextID n) = none) :
    Exclusive s'.Holds := by
  have hmore (id : BlockID) (data : Bytes) (hfirst : s.net.FirstIs id data) :
      s'.net.FirstIs id data := hkeeps.first hfirst
  cases hstep with
  | blocks event net hstep => exact h.exclusive_of_keeps hapart hkeeps s.cleanups
  | put n file metaBlock hn hmeta =>
      have hunder : Session.Under s.net.FirstIs ⟨file, metaBlock, file.messages⟩ [] :=
        .starts hmeta rfl
      exact exclusive_put hapart hunder.listedIDs_eq
  | leaves n k session ids hfound hids =>
      have hserve : Exclusive (s.serve n s.net (s.trees n) ((s.sessions n).eraseIdx k)).Holds :=
        h.exclusive_fails hapart hkeeps
      exact hserve
  | cleans n k id rest net hfound hstep => exact h.exclusive_of_keeps hapart hkeeps _
  | goesOn n k opens session rest net up hreceives =>
      obtain rfl := hopens n k opens rfl
      obtain ⟨ids, hunder, hserved⟩ := h.served hmore (hfiles n) hreceives
      cases hserved with
      | goesOn ids' htree hunder' hids =>
          rw [← hunder'.listedIDs_eq, ← hunder.listedIDs_eq] at hids
          exact h.exclusive_goesOn hapart hkeeps hreceives.found (hfresh n k rfl) hids
  | fails n k opens session rest net up hreceives => exact h.exclusive_fails hapart hkeeps
  | completes n k opens session rest net up name hreceives hname =>
      obtain rfl := hopens n k opens rfl
      obtain ⟨ids, hunder, hserved⟩ := h.served hmore (hfiles n) hreceives
      cases hserved with
      | completed hid hnext hpath hadd harchives =>
          have hids := harchives.listedIDs_eq ((h.tree n).ne_nil_of_addFile hadd)
          rw [← hunder.listedIDs_eq] at hids
          exact h.exclusive_completes hapart hkeeps hreceives.found (hnext ▸ hfresh n k rfl) hids
  | addDir n dir store store' msg success hstore hadd => exact exclusive_replant hapart
  | hear n msg fuel tree success hsent hhear => exact exclusive_replant hapart

end Steps

end StorageNet

end Doopey
