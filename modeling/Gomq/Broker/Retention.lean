import Mathlib.Data.List.Sort
import Gomq.Lib.Bytes
import Gomq.Lib.Newest
import Gomq.Lib.Run

/-!
# Retention of snapshots

After it has written a snapshot, the manager removes the oldest files of its output directory. It
takes every file whose name ends in `.json` for a snapshot. So retention is safe exactly if the
directory has no other files of that kind, or not more files than are retained
(`retainSafe_iff`): else it either removes a file that is not its own or, with such files among the
newest ones, too many snapshots.
-/

namespace Gomq.Broker

open List

/-! ## Directories -/

structure DirEntry where
  name : GoString
  isDir : Bool
  modTime : ℤ
  deriving DecidableEq

/-- A directory; no two entries have one name. -/
structure Directory where
  entries : List DirEntry
  nodup : (entries.map DirEntry.name).Nodup

/-- The scan of `filepath.Ext` from the end of a path; `after` has been passed. -/
def extBefore (after : GoString) : GoString → GoString
  | [] => []
  | c :: cs =>
    if c = 0x2F then [] else if c = 0x2E then c :: after else extBefore (c :: after) cs

/-- `filepath.Ext`: what follows the last dot of the last element of a path, with the dot. -/
def ext (path : GoString) : GoString := extBefore [] path.reverse

theorem extBefore_spec {after rev out : GoString} (h : extBefore after rev = out) (hne : out ≠ []) :
    ∃ tail rest, rev = tail ++ 0x2E :: rest ∧ out = 0x2E :: (tail.reverse ++ after) := by
  induction rev generalizing after with
  | nil => exact absurd h.symm hne
  | cons c cs ih =>
    unfold extBefore at h
    split at h
    · exact absurd h.symm hne
    · split at h
      · next hc => exact ⟨[], cs, by rw [hc]; rfl, by rw [← h, hc]; rfl⟩
      · obtain ⟨tail, rest, hcs, hout⟩ := ih h
        refine ⟨c :: tail, rest, by rw [hcs]; rfl, ?_⟩
        rw [hout, reverse_cons, append_assoc]
        rfl

theorem ext_eq_json_iff (path : GoString) : ext path = str ".json" ↔ str ".json" <:+ path := by
  constructor
  · intro h
    obtain ⟨tail, rest, hrev, hout⟩ := extBefore_spec h (by decide)
    have htail : tail.reverse = str "json" := by
      rw [append_nil] at hout
      exact (List.cons.inj hout).2.symm
    refine ⟨rest.reverse, ?_⟩
    rw [← reverse_reverse path, hrev, reverse_append, reverse_cons, htail,
      append_assoc]
    rfl
  · rintro ⟨stem, rfl⟩
    unfold ext
    rw [reverse_append]
    rfl

/-! ## The snapshots of a directory -/

def IsSnapshotName (name : GoString) : Prop :=
  str "gomq_snapshot_" <+: name ∧ str ".json" <:+ name.drop (str "gomq_snapshot_").length

instance (name : GoString) : Decidable (IsSnapshotName name) :=
  inferInstanceAs (Decidable (_ ∧ _))

def IsSnapshot (e : DirEntry) : Prop := e.isDir = false ∧ IsSnapshotName e.name

instance (e : DirEntry) : Decidable (IsSnapshot e) := inferInstanceAs (Decidable (_ ∧ _))

def snapshots (entries : List DirEntry) : List DirEntry := entries.filter fun e => IsSnapshot e

/-- What `retain` takes for a snapshot. -/
def IsJson (e : DirEntry) : Prop := e.isDir = false ∧ ext e.name = str ".json"

instance (e : DirEntry) : Decidable (IsJson e) := inferInstanceAs (Decidable (_ ∧ _))

def jsonFiles (entries : List DirEntry) : List DirEntry := entries.filter fun e => IsJson e

theorem mem_snapshots {e : DirEntry} {entries : List DirEntry} :
    e ∈ snapshots entries ↔ e ∈ entries ∧ IsSnapshot e := by
  rw [snapshots, mem_filter, decide_eq_true_eq]

theorem mem_jsonFiles {e : DirEntry} {entries : List DirEntry} :
    e ∈ jsonFiles entries ↔ e ∈ entries ∧ IsJson e := by
  rw [jsonFiles, mem_filter, decide_eq_true_eq]

theorem IsSnapshot.isJson {e : DirEntry} (h : IsSnapshot e) : IsJson e :=
  ⟨h.1, (ext_eq_json_iff e.name).mpr (h.2.2.trans (drop_suffix _ _))⟩

/-! ## Retention -/

/-- `sort.Slice` by modification time, which may leave files of the same time in any order. -/
structure ModTimeSort where
  sort : List DirEntry → List DirEntry
  perm : ∀ l, (sort l).Perm l
  sorted : ∀ l, (sort l).Pairwise fun a b => a.modTime ≤ b.modTime

structure Disk where
  entries : List DirEntry
  failed : List GoString

/-- `os.Remove`, with the line that is logged if it fails. -/
def Disk.remove (fails : GoString → Bool) (d : Disk) (e : DirEntry) : Disk :=
  if fails e.name then { d with failed := d.failed ++ [e.name] }
  else { d with entries := d.entries.filter fun x => x.name ≠ e.name }

/-- `retain`, with the retain count `r`; `fails` says which files cannot be removed. -/
def retain (order : ModTimeSort) (fails : GoString → Bool) (r : ℕ) (entries : List DirEntry) :
    Disk :=
  let snaps := jsonFiles entries
  if snaps.length ≤ r then ⟨entries, []⟩
  else ((order.sort snaps).take (snaps.length - r)).foldl (Disk.remove fails) ⟨entries, []⟩

def oldest (order : ModTimeSort) (r : ℕ) (entries : List DirEntry) : List DirEntry :=
  (order.sort (jsonFiles entries)).take ((jsonFiles entries).length - r)

def newest (order : ModTimeSort) (r : ℕ) (entries : List DirEntry) : List DirEntry :=
  (order.sort (jsonFiles entries)).drop ((jsonFiles entries).length - r)

theorem retain_eq (order : ModTimeSort) (fails : GoString → Bool) (r : ℕ)
    (entries : List DirEntry) :
    retain order fails r entries =
      (oldest order r entries).foldl (Disk.remove fails) ⟨entries, []⟩ := by
  unfold retain oldest
  dsimp only
  split
  · next h => rw [Nat.sub_eq_zero_of_le h, take_zero, foldl_nil]
  · rfl

theorem mem_foldl_remove {fails : GoString → Bool} {e : DirEntry} {olds : List DirEntry}
    {d : Disk} :
    e ∈ (olds.foldl (Disk.remove fails) d).entries ↔
      e ∈ d.entries ∧ ∀ o ∈ olds, o.name = e.name → fails o.name = true := by
  induction olds generalizing d with
  | nil => simp
  | cons o olds ih =>
    rw [foldl_cons, ih, forall_mem_cons]
    unfold Disk.remove
    by_cases hf : fails o.name = true
    · simp [hf]
    · have hiff : (o.name = e.name → fails o.name = true) ↔ e.name ≠ o.name :=
        ⟨fun h heq => hf (h heq.symm), fun h heq => absurd heq.symm h⟩
      rw [if_neg hf, hiff, ← and_assoc]
      simp

theorem foldl_remove_failed {fails : GoString → Bool} {olds : List DirEntry} {d : Disk} :
    (olds.foldl (Disk.remove fails) d).failed = [] ↔
      d.failed = [] ∧ ∀ o ∈ olds, fails o.name = false := by
  induction olds generalizing d with
  | nil => simp
  | cons o olds ih =>
    rw [foldl_cons, ih, forall_mem_cons, ← and_assoc]
    unfold Disk.remove
    cases hf : fails o.name <;> simp

theorem foldl_remove_sublist (fails : GoString → Bool) (olds : List DirEntry) (d : Disk) :
    (olds.foldl (Disk.remove fails) d).entries.Sublist d.entries := by
  induction olds generalizing d with
  | nil => exact List.Sublist.refl _
  | cons o olds ih =>
    refine (ih (d.remove fails o)).trans ?_
    unfold Disk.remove
    split
    · exact List.Sublist.refl _
    · exact filter_sublist

/-! ### The files of one directory -/

section

variable (order : ModTimeSort) (fails : GoString → Bool) (r : ℕ) (dir : Directory)

theorem Directory.entries_nodup : dir.entries.Nodup := List.Nodup.of_map _ dir.nodup

theorem Directory.eq_of_name {a b : DirEntry} (ha : a ∈ dir.entries) (hb : b ∈ dir.entries)
    (h : a.name = b.name) : a = b :=
  inj_on_of_nodup_map dir.nodup ha hb h

theorem oldest_append_newest :
    (oldest order r dir.entries ++ newest order r dir.entries).Perm (jsonFiles dir.entries) := by
  unfold oldest newest
  rw [take_append_drop]
  exact order.perm _

theorem sorted_nodup : (oldest order r dir.entries ++ newest order r dir.entries).Nodup :=
  (oldest_append_newest order r dir).nodup_iff.mpr (dir.entries_nodup.filter _)

theorem mem_jsonFiles_iff {e : DirEntry} :
    e ∈ jsonFiles dir.entries ↔
      e ∈ oldest order r dir.entries ∨ e ∈ newest order r dir.entries := by
  rw [← (oldest_append_newest order r dir).mem_iff, mem_append]

theorem mem_entries_of_mem_oldest {e : DirEntry} (h : e ∈ oldest order r dir.entries) :
    e ∈ dir.entries :=
  (mem_jsonFiles.mp ((mem_jsonFiles_iff order r dir).mpr (.inl h))).1

theorem mem_retain_iff {e : DirEntry} :
    e ∈ (retain order fails r dir.entries).entries ↔
      e ∈ dir.entries ∧ (e ∈ oldest order r dir.entries → fails e.name = true) := by
  rw [retain_eq, mem_foldl_remove]
  refine and_congr_right fun he => ⟨fun h hold => h e hold rfl, fun h o ho hname => ?_⟩
  obtain rfl := dir.eq_of_name (mem_entries_of_mem_oldest order r dir ho) he hname
  exact h ho

theorem not_fails_of_failed {e : DirEntry} (h : (retain order fails r dir.entries).failed = [])
    (he : e ∈ oldest order r dir.entries) : fails e.name = false := by
  rw [retain_eq, foldl_remove_failed] at h
  exact h.2 e he

end

/-! ## Safety -/

/-- Only snapshots are gone, none of the newest `r` of them, and if no removal failed these are the
snapshots that are left. -/
structure RetainSafe (r : ℕ) (before : List DirEntry) (after : Disk) : Prop where
  own : ∀ e ∈ before, e ∉ after.entries → IsSnapshot e
  newest : ∃ K, NewestOf DirEntry.modTime r (snapshots before) K ∧ K ⊆ after.entries ∧
    (after.failed = [] → ∀ e, e ∈ snapshots after.entries ↔ e ∈ K)

def OnlySnapshots (entries : List DirEntry) : Prop := ∀ e ∈ entries, IsJson e → IsSnapshot e

instance (entries : List DirEntry) : Decidable (OnlySnapshots entries) :=
  inferInstanceAs (Decidable (∀ e ∈ entries, _))

section

variable {order : ModTimeSort} {r : ℕ} {dir : Directory}

theorem jsonFiles_eq_snapshots {entries : List DirEntry} (h : OnlySnapshots entries) :
    jsonFiles entries = snapshots entries := by
  refine filter_congr fun e he => ?_
  rw [decide_eq_decide]
  exact ⟨h e he, IsSnapshot.isJson⟩

theorem retainSafe_of_onlySnapshots (h : OnlySnapshots dir.entries) (fails : GoString → Bool) :
    RetainSafe r dir.entries (retain order fails r dir.entries) := by
  have hjson := jsonFiles_eq_snapshots h
  have hdisjoint := disjoint_of_nodup_append (sorted_nodup order r dir)
  refine ⟨fun e he hgone => ?_, newest order r dir.entries, ?_, fun e he => ?_, fun hfailed e => ?_⟩
  · rw [mem_retain_iff] at hgone
    have hold : e ∈ oldest order r dir.entries := by
      by_contra hnot
      exact hgone ⟨he, fun hin => absurd hin hnot⟩
    have hmem := (mem_jsonFiles_iff order r dir).mpr (.inl hold)
    rw [hjson] at hmem
    exact (mem_snapshots.mp hmem).2
  · have hnodup : (order.sort (jsonFiles dir.entries)).Nodup :=
      (order.perm _).nodup_iff.mpr (dir.entries_nodup.filter _)
    have hlast := newestOf_drop (r := r) hnodup (order.sorted _)
    rw [(order.perm _).length_eq] at hlast
    rw [← hjson]
    exact hlast.perm (order.perm _)
  · have hmem := (mem_jsonFiles_iff order r dir).mpr (.inr he)
    rw [mem_retain_iff]
    exact ⟨(mem_jsonFiles.mp hmem).1, fun hold => absurd he (hdisjoint hold)⟩
  · rw [mem_snapshots, mem_retain_iff]
    constructor
    · rintro ⟨⟨he, hold⟩, hsnap⟩
      have hmem : e ∈ jsonFiles dir.entries := by
        rw [hjson]
        exact mem_snapshots.mpr ⟨he, hsnap⟩
      refine ((mem_jsonFiles_iff order r dir).mp hmem).resolve_left fun hin => ?_
      rw [not_fails_of_failed order fails r dir hfailed hin] at hold
      cases hold hin
    · intro he
      have hmem := (mem_jsonFiles_iff order r dir).mpr (.inr he)
      rw [hjson] at hmem
      obtain ⟨hin, hsnap⟩ := mem_snapshots.mp hmem
      exact ⟨⟨hin, fun hold => absurd he (hdisjoint hold)⟩, hsnap⟩

theorem retainSafe_of_length_le (h : (jsonFiles dir.entries).length ≤ r) (fails : GoString → Bool) :
    RetainSafe r dir.entries (retain order fails r dir.entries) := by
  have hsame : retain order fails r dir.entries = ⟨dir.entries, []⟩ := if_pos h
  have hle : (snapshots dir.entries).length ≤ (jsonFiles dir.entries).length :=
    (monotone_filter_right dir.entries fun e he =>
      decide_eq_true (of_decide_eq_true he : IsSnapshot e).isJson).length_le
  rw [hsame]
  exact ⟨fun e he hgone => absurd he hgone, snapshots dir.entries,
    NewestOf.self (dir.entries_nodup.filter _) (hle.trans h), filter_subset_self _,
    fun _ _ => Iff.rfl⟩

theorem not_retainSafe {f : DirEntry} (hf : f ∈ dir.entries) (hjson : IsJson f)
    (hforeign : ¬ IsSnapshot f) (hmany : r < (jsonFiles dir.entries).length) :
    ¬ RetainSafe r dir.entries (retain order (fun _ => false) r dir.entries) := by
  rintro ⟨hown, K, hK, hleft, _⟩
  have hmem {e : DirEntry} : e ∈ (retain order (fun _ => false) r dir.entries).entries ↔
      e ∈ dir.entries ∧ e ∉ oldest order r dir.entries := by
    rw [mem_retain_iff]
    simp
  -- an old file is gone, so it is a snapshot; the foreign file is therefore among the newest
  have hold {e : DirEntry} (he : e ∈ oldest order r dir.entries) : IsSnapshot e :=
    hown e (mem_entries_of_mem_oldest order r dir he) fun hin => (hmem.mp hin).2 he
  have hfnew : f ∈ newest order r dir.entries :=
    ((mem_jsonFiles_iff order r dir).mp (mem_jsonFiles.mpr ⟨hf, hjson⟩)).resolve_left fun h =>
      hforeign (hold h)
  have hnewlen : (newest order r dir.entries).length = r := by
    unfold newest
    rw [length_drop, (order.perm _).length_eq]
    omega
  have hKsub : K ⊆ (newest order r dir.entries).erase f := by
    intro e he
    have hsnap : IsSnapshot e := (mem_snapshots.mp (hK.subset he)).2
    have hin := hmem.mp (hleft he)
    have hnew : e ∈ newest order r dir.entries :=
      ((mem_jsonFiles_iff order r dir).mp (mem_jsonFiles.mpr ⟨hin.1, hsnap.isJson⟩)).resolve_left
        hin.2
    have hne : e ≠ f := by
      rintro rfl
      exact hforeign hsnap
    exact (mem_erase_of_ne hne).mpr hnew
  have hKlen := (hK.nodup.subperm hKsub).length_le
  rw [length_erase_of_mem hfnew, hnewlen, hK.length] at hKlen
  have hpos : 0 < r := hnewlen ▸ length_pos_of_mem hfnew
  -- so there are fewer than `r` snapshots, and all of them should be left
  have hfew : (snapshots dir.entries).length ≤ r := by omega
  obtain ⟨o, ho⟩ : ∃ o, o ∈ oldest order r dir.entries := by
    refine exists_mem_of_length_pos ?_
    unfold oldest
    rw [length_take, (order.perm _).length_eq]
    omega
  have hoK : o ∈ K := hK.mem_of_length_le hfew
    (mem_snapshots.mpr ⟨mem_entries_of_mem_oldest order r dir ho, hold ho⟩)
  exact (hmem.mp (hleft hoK)).2 ho

end

/-- Retention in a directory is safe, whatever removals fail, exactly if every file that ends in
`.json` is a snapshot or there are no more such files than are retained. -/
theorem retainSafe_iff (order : ModTimeSort) (r : ℕ) (dir : Directory) :
    (∀ fails, RetainSafe r dir.entries (retain order fails r dir.entries)) ↔
      OnlySnapshots dir.entries ∨ (jsonFiles dir.entries).length ≤ r := by
  constructor
  · intro hsafe
    by_contra hnot
    obtain ⟨hforeign, hmany⟩ := not_or.mp hnot
    refine hforeign fun f hf hjson => ?_
    by_contra hsnap
    exact not_retainSafe hf hjson hsnap (not_le.mp hmany) (hsafe _)
  · rintro (hown | hle) fails
    · exact retainSafe_of_onlySnapshots hown fails
    · exact retainSafe_of_length_le hle fails

def insertionOrder : ModTimeSort where
  sort := List.insertionSort fun a b => a.modTime ≤ b.modTime
  perm := perm_insertionSort _
  sorted l := by
    have : Std.Total fun a b : DirEntry => a.modTime ≤ b.modTime := ⟨fun a b => le_total _ _⟩
    have : IsTrans DirEntry fun a b => a.modTime ≤ b.modTime := ⟨fun _ _ _ => le_trans⟩
    exact pairwise_insertionSort _ l

def configFile : DirEntry := ⟨str "config.json", false, 1⟩

def snapshotFile : DirEntry := ⟨str "gomq_snapshot_n1_20260101_000000.000.json", false, 2⟩

/-- A configuration that lies beside the only snapshot is removed in its place. -/
theorem retain_removes_config :
    (retain insertionOrder (fun _ => false) 1 [configFile, snapshotFile]).entries =
        [snapshotFile] ∧
      ¬ RetainSafe 1 [configFile, snapshotFile]
        (retain insertionOrder (fun _ => false) 1 [configFile, snapshotFile]) := by
  have hleft : (retain insertionOrder (fun _ => false) 1 [configFile, snapshotFile]).entries =
      [snapshotFile] := by decide
  refine ⟨hleft, fun h => ?_⟩
  have hgone := h.own configFile (by decide) (by rw [hleft]; decide)
  exact absurd hgone (by decide)

/-! ## Creating snapshots -/

/-- The node id has no slash in it, so that `fileName` is a name in the directory. -/
structure SnapshotManager where
  nodeID : GoString
  retainCount : ℤ

def SnapshotManager.fileName (m : SnapshotManager) (ts : GoString) : GoString :=
  str "gomq_snapshot_" ++ m.nodeID ++ str "_" ++ ts ++ str ".json"

theorem SnapshotManager.isSnapshotName_fileName (m : SnapshotManager) (ts : GoString) :
    IsSnapshotName (m.fileName ts) := by
  unfold SnapshotManager.fileName IsSnapshotName
  rw [append_assoc, append_assoc, append_assoc, drop_left]
  exact ⟨prefix_append _ _, m.nodeID ++ (str "_" ++ ts), by simp⟩

def Directory.writeFile (dir : Directory) (name : GoString) (now : ℤ) : Directory where
  entries := dir.entries.filter (fun e => e.name ≠ name) ++ [⟨name, false, now⟩]
  nodup := by
    rw [map_append]
    refine List.Nodup.append (dir.nodup.sublist (filter_sublist.map _))
      (nodup_singleton _) ?_
    intro n hn hnew
    obtain ⟨e, he, rfl⟩ := mem_map.mp hn
    simp only [map_cons, map_nil, mem_singleton] at hnew
    simp [hnew] at he

def Directory.retain (dir : Directory) (order : ModTimeSort) (fails : GoString → Bool) (r : ℕ) :
    Directory where
  entries := (Broker.retain order fails r dir.entries).entries
  nodup := by
    rw [retain_eq]
    exact dir.nodup.sublist ((foldl_remove_sublist fails _ _).map _)

/-- How far the writing of a snapshot comes. -/
inductive WriteOutcome where
  | failed
  /-- The file is there, but not all of its contents. -/
  | cut
  | written

/-- One call of `Create`: the time as it is written into the name and as the file gets it, and what
the disk does. -/
structure CreateCall where
  ts : GoString
  now : ℤ
  write : WriteOutcome
  fails : GoString → Bool

variable (m : SnapshotManager) (order : ModTimeSort)

def SnapshotManager.create (dir : Directory) (c : CreateCall) : Directory :=
  match c.write with
  | .failed => dir
  | .cut => dir.writeFile (m.fileName c.ts) c.now
  | .written =>
    let dir := dir.writeFile (m.fileName c.ts) c.now
    if 0 < m.retainCount then dir.retain order c.fails m.retainCount.toNat else dir

theorem OnlySnapshots.writeFile {dir : Directory} (h : OnlySnapshots dir.entries) (ts : GoString)
    (now : ℤ) : OnlySnapshots (dir.writeFile (m.fileName ts) now).entries := by
  intro e he hjson
  rcases mem_append.mp he with he | he
  · exact h e (mem_of_mem_filter he) hjson
  · rw [mem_singleton.mp he]
    exact ⟨rfl, m.isSnapshotName_fileName ts⟩

theorem OnlySnapshots.retain {dir : Directory} (h : OnlySnapshots dir.entries)
    (fails : GoString → Bool) (r : ℕ) : OnlySnapshots (dir.retain order fails r).entries :=
  fun e he => h e ((mem_retain_iff order fails r dir).mp he).1

theorem OnlySnapshots.create {dir : Directory} (h : OnlySnapshots dir.entries) (c : CreateCall) :
    OnlySnapshots (m.create order dir c).entries := by
  unfold SnapshotManager.create
  cases c.write with
  | failed => exact h
  | cut => exact h.writeFile m c.ts c.now
  | written =>
    dsimp only
    split
    · exact (h.writeFile m c.ts c.now).retain order _ _
    · exact h.writeFile m c.ts c.now

end Gomq.Broker
