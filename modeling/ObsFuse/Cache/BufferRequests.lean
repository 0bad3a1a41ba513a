import ObsFuse.Cache.FileBuffer
import ObsFuse.Fs.Path
import ObsFuse.Storage.Requests

/-! # The requests of the client and of the write buffer

Which keys the requests of an operation are for. The write buffer asks for the keys with which
its buffers were made, and for the key that a write or a truncation gives. -/

namespace ObsFuse
open Lib

/-! ### Requests within a set of keys -/

def Request.keys : Request → List Str
  | .stat path | .read path .. | .write path _ | .delete path | .list path | .createDir path =>
    [path]
  | .copy source target => [source, target]

/-- The request is for keys in `K`, or it is the `stat` that a listing of a key in `K` makes
for an entry that the storage library returned. -/
def Request.Within (b : Backend) (K : Str → Prop) (r : Request) : Prop :=
  (∀ key ∈ r.keys, K key) ∨
    ∃ objects dir listing entry, K dir ∧ b.list objects dir = .ok listing ∧ entry ∈ listing ∧
      r = .stat entry

/-- All requests after `start` are within `K`. -/
structure ObsClient.Asks (b : Backend) (K : Str → Prop) (start : List Request)
    (cl : ObsClient) : Prop where
  backend : cl.backend = b
  log : ∃ reqs, cl.log = start ++ reqs ∧ ∀ r ∈ reqs, r.Within b K

namespace ObsClient
variable {b : Backend} {K : Str → Prop} {start : List Request} {cl cl' : ObsClient}

theorem Asks.sent (h : cl.Asks b K start) {r : Request} (hr : r.Within b K)
    (hb : cl'.backend = cl.backend) (hlog : cl'.log = cl.log ++ [r]) : cl'.Asks b K start := by
  obtain ⟨reqs, hreqs, hin⟩ := h.log
  refine ⟨hb.trans h.backend, reqs ++ [r], ?_, ?_⟩
  · rw [hlog, hreqs, List.append_assoc]
  · intro r' hr'
    rcases List.mem_append.mp hr' with hold | hnew
    · exact hin r' hold
    · rw [List.mem_singleton.mp hnew]
      exact hr

theorem within_one {r : Request} {key : Str} (hkeys : r.keys = [key]) (hk : K key) :
    r.Within b K := by
  left
  intro k hmem
  rw [hkeys] at hmem
  rw [List.mem_singleton.mp hmem]
  exact hk

theorem Asks.statRequest (h : cl.Asks b K start) {path : Str}
    (hr : (Request.stat path).Within b K) : (cl.stat path).2.Asks b K start := by
  unfold ObsClient.stat
  split
  · exact h.sent hr rfl rfl
  · split
    · exact h.sent hr rfl rfl
    · exact h.sent hr rfl rfl

theorem Asks.stat (h : cl.Asks b K start) {path : Str} (hk : K path) :
    (cl.stat path).2.Asks b K start :=
  h.statRequest (within_one rfl hk)

theorem Asks.readRange (h : cl.Asks b K start) {path : Str} (hk : K path) (offset size : ℕ) :
    (cl.readRange path offset size).2.Asks b K start := by
  have hr : (Request.read path offset size).Within b K := within_one rfl hk
  unfold ObsClient.readRange
  split
  · exact h.sent hr rfl rfl
  · split
    · exact h.sent hr rfl rfl
    · split
      · exact h.sent hr rfl rfl
      · exact h.sent hr rfl rfl

theorem Asks.write (h : cl.Asks b K start) {path : Str} (hk : K path) (data : Bytes) :
    (cl.write path data).2.Asks b K start := by
  have hr : (Request.write path data).Within b K := within_one rfl hk
  unfold ObsClient.write
  split
  · exact h.sent hr rfl rfl
  · exact h.sent hr rfl rfl

theorem Asks.delete (h : cl.Asks b K start) {path : Str} (hk : K path) :
    (cl.delete path).2.Asks b K start := by
  have hr : (Request.delete path).Within b K := within_one rfl hk
  unfold ObsClient.delete
  split
  · exact h.sent hr rfl rfl
  · exact h.sent hr rfl rfl

theorem Asks.createDir (h : cl.Asks b K start) {path : Str} (hk : K (dirObject path)) :
    (cl.createDir path).2.Asks b K start := by
  have hr : (Request.createDir (dirObject path)).Within b K := within_one rfl hk
  unfold ObsClient.createDir
  dsimp only
  split
  · exact h.sent hr rfl rfl
  · exact h.sent hr rfl rfl

theorem Asks.copy (h : cl.Asks b K start) {source target : Str} (hs : K source)
    (ht : K target) : (cl.copy source target).2.Asks b K start := by
  have hr : (Request.copy source target).Within b K := by
    left
    intro key hkey
    rcases List.mem_pair.mp hkey with heq | heq
    · rw [heq]
      exact hs
    · rw [heq]
      exact ht
  unfold ObsClient.copy
  split
  · exact h.sent hr rfl rfl
  · split
    · exact h.sent hr rfl rfl
    · split
      · exact h.sent hr rfl rfl
      · exact h.sent hr rfl rfl

theorem Asks.statAll (h : cl.Asks b K start) {entries : List Str}
    (hr : ∀ entry ∈ entries, (Request.stat entry).Within b K) :
    (cl.statAll entries).2.Asks b K start := by
  induction entries generalizing cl with
  | nil => exact h
  | cons entry entries ih =>
    have hhead := h.statRequest (hr entry (List.mem_cons_self ..))
    unfold ObsClient.statAll
    generalize cl.stat entry = r at hhead ⊢
    obtain ⟨_ | info, t⟩ := r
    · exact hhead
    · have htail := ih hhead fun e he => hr e (List.mem_cons_of_mem _ he)
      dsimp only
      generalize t.statAll entries = r at htail ⊢
      obtain ⟨_ | infos, u⟩ := r
      · exact htail
      · exact htail

theorem Asks.list (h : cl.Asks b K start) {path : Str} (hk : K path) :
    (cl.list path).2.Asks b K start := by
  have hr : (Request.list path).Within b K := within_one rfl hk
  unfold ObsClient.list
  split
  · exact h.sent hr rfl rfl
  · split
    · exact h.sent hr rfl rfl
    · next entries hlist =>
      have hsent : (cl.sent (.list path)).Asks b K start := h.sent hr rfl rfl
      apply hsent.statAll
      intro entry hentry
      rw [h.backend] at hlist
      exact .inr ⟨_, path, entries, entry, hk, hlist, hentry, rfl⟩

theorem Asks.listDir (h : cl.Asks b K start) {obs : Str} (hroot : K obs) (hdir : K (dirKey obs)) :
    (cl.listDir (if obs = [] then [] else dirKey obs)).2.Asks b K start := by
  unfold ObsClient.listDir
  split
  · next hnil =>
    rw [hnil] at hroot
    exact h.list hroot
  · have hlast : (dirKey obs).getLast? = some '/' := by
      unfold dirKey
      rw [List.getLast?_concat]
    dsimp only
    rw [if_pos (.inr hlast)]
    exact h.list hdir

/-- Any client asks for keys at will, of the storage library that it has. -/
theorem asks_any (cl : ObsClient) : cl.Asks cl.backend (fun _ => True) [] := by
  refine ⟨rfl, cl.log, rfl, ?_⟩
  intro r _
  exact .inl fun _ _ => trivial

theorem write_backend (cl : ObsClient) (path : Str) (data : Bytes) :
    (cl.write path data).2.backend = cl.backend :=
  (cl.asks_any.write trivial data).backend

theorem delete_backend (cl : ObsClient) (path : Str) :
    (cl.delete path).2.backend = cl.backend :=
  (cl.asks_any.delete trivial).backend

theorem createDir_backend (cl : ObsClient) (path : Str) :
    (cl.createDir path).2.backend = cl.backend :=
  (cl.asks_any.createDir trivial).backend

theorem copy_backend (cl : ObsClient) (source target : Str) :
    (cl.copy source target).2.backend = cl.backend :=
  (cl.asks_any.copy trivial trivial).backend

end ObsClient

/-! ### The write buffer -/

def WriteBuffer.KeysIn (K : Str → Prop) (wb : WriteBuffer) : Prop :=
  ∀ inode, ∀ buf ∈ wb.buffers.lookup inode, K buf.path

section
variable {b : Backend} {K : Str → Prop} {start : List Request} {cl : ObsClient}

theorem WriteBufferConfig.flushBuffer_asks (cfg : WriteBufferConfig) {buf : FileWriteBuffer}
    (hk : K buf.path) (h : cl.Asks b K start) :
    K (cfg.flushBuffer buf cl).2.1.path ∧ (cfg.flushBuffer buf cl).2.2.Asks b K start := by
  have hr : (Request.write buf.path buf.data).Within b K := ObsClient.within_one rfl hk
  rcases cfg.flushBuffer_cases buf cl with
    ⟨-, heq⟩ | ⟨-, ⟨-, ⟨-, heq⟩ | ⟨e, -, heq⟩⟩ | ⟨mp, -, ⟨-, heq⟩ | ⟨-, heq⟩⟩⟩
  · rw [heq]
    exact ⟨hk, h⟩
  · rw [heq]
    exact ⟨hk, h.sent hr rfl rfl⟩
  · rw [heq]
    exact ⟨hk, h.sent hr rfl rfl⟩
  · rw [heq]
    exact ⟨hk, h⟩
  · rw [heq]
    exact ⟨hk, h⟩

theorem WriteBufferConfig.writeLocked_asks (cfg : WriteBufferConfig) {buf : FileWriteBuffer}
    (hk : K buf.path) {path : Str} (hpath : K path) (h : cl.Asks b K start) (now : Instant)
    (offset : ℕ) (data : Bytes) :
    K (cfg.writeLocked buf cl now path offset data).2.1.path ∧
      (cfg.writeLocked buf cl now path offset data).2.2.Asks b K start := by
  cases hdir : buf.goesDirect offset with
  | true =>
    rw [cfg.writeLocked_direct now path offset data hdir]
    obtain ⟨hkey, hcl⟩ := @flushBuffer_asks b K start cl cfg (buf.placed offset data.length) hk h
    generalize cfg.flushBuffer (buf.placed offset data.length) cl = r at hkey hcl ⊢
    obtain ⟨_ | _ | _, buf', t⟩ := r
    · have hwrite := hcl.write hpath data
      dsimp only at hkey hwrite ⊢
      generalize t.write path data = w at hwrite ⊢
      obtain ⟨_ | _, u⟩ := w
      · exact ⟨hkey, hwrite⟩
      · exact ⟨hkey, hwrite⟩
    · exact ⟨hkey, hcl⟩
    · exact ⟨hkey, hcl⟩
  | false =>
    rw [cfg.writeLocked_buffered now path offset data hdir]
    obtain ⟨hstart, -⟩ := @startMultipart_keeps cfg (buf.appended now offset data) path
    cases hparts : cfg.flushParts (cfg.startMultipart (buf.appended now offset data) path) with
    | none =>
      dsimp only
      rw [hstart]
      exact ⟨hk, h⟩
    | some parted =>
      have hparted : K parted.path := by
        rw [(cfg.flushParts_keeps hparts).1, hstart]
        exact hk
      dsimp only
      split
      · obtain ⟨hkey, hcl⟩ := cfg.flushBuffer_asks hparted h
        generalize cfg.flushBuffer parted cl = r at hkey hcl ⊢
        obtain ⟨_ | _ | _, buf', t⟩ := r
        · exact ⟨hkey, hcl⟩
        · exact ⟨hkey, hcl⟩
        · exact ⟨hkey, hcl⟩
      · exact ⟨hparted, h⟩

namespace WriteBuffer
variable {wb : WriteBuffer}

theorem KeysIn.insert (h : wb.KeysIn K) (inode : ℕ) {buf : FileWriteBuffer} (hk : K buf.path) :
    KeysIn K { wb with buffers := wb.buffers.insert inode buf } :=
  Table.forall_lookup_insert h inode hk

theorem KeysIn.erase (h : wb.KeysIn K) (inode : ℕ) :
    KeysIn K { wb with buffers := wb.buffers.erase inode } := by
  intro j buf hbuf
  exact h j buf (Table.lookup_of_erase hbuf)

theorem KeysIn.bufferFor (h : wb.KeysIn K) {path : Str} (hpath : K path) (now : Instant)
    (inode size : ℕ) : K (wb.bufferFor now inode path size).path := by
  unfold WriteBuffer.bufferFor
  cases hb : wb.buffers.lookup inode with
  | none => exact hpath
  | some buf => exact h inode buf hb

theorem write_asks (hwb : wb.KeysIn K) (h : cl.Asks b K start) {path : Str} (hpath : K path)
    (now : Instant) (inode offset : ℕ) (data : Bytes) (fileSize : ℕ) :
    (wb.write cl now inode path offset data fileSize).2.1.KeysIn K ∧
      (wb.write cl now inode path offset data fileSize).2.2.Asks b K start := by
  obtain ⟨hkey, hcl⟩ := wb.config.writeLocked_asks (hwb.bufferFor hpath now inode fileSize) hpath h
    now offset data
  rw [write_eq]
  exact ⟨hwb.insert inode hkey, hcl⟩

theorem flush_asks (hwb : wb.KeysIn K) (h : cl.Asks b K start) (inode : ℕ) :
    (wb.flush cl inode).2.1.KeysIn K ∧ (wb.flush cl inode).2.2.Asks b K start := by
  unfold flush
  cases hb : wb.buffers.lookup inode with
  | none => exact ⟨hwb, h⟩
  | some buf =>
    obtain ⟨hkey, hcl⟩ := wb.config.flushBuffer_asks (hwb inode buf hb) h
    exact ⟨hwb.insert inode hkey, hcl⟩

theorem release_asks (hwb : wb.KeysIn K) (h : cl.Asks b K start) (inode : ℕ) :
    (wb.release cl inode).2.1.KeysIn K ∧ (wb.release cl inode).2.2.Asks b K start := by
  cases hb : wb.buffers.lookup inode with
  | none =>
    rw [release_none hb]
    exact ⟨hwb, h⟩
  | some buf =>
    rw [release_some hb]
    exact ⟨hwb.erase inode, (wb.config.flushBuffer_asks (hwb inode buf hb) h).2⟩

theorem truncate_asks (hwb : wb.KeysIn K) (h : cl.Asks b K start) {path : Str} (hpath : K path)
    (now : Instant) (inode size : ℕ) :
    (wb.truncate cl now inode path size).2.1.KeysIn K ∧
      (wb.truncate cl now inode path size).2.2.Asks b K start := by
  have hgot : (wb.getOrCreate now inode path size).2.KeysIn K ∧
      K (wb.getOrCreate now inode path size).1.path := by
    unfold getOrCreate
    cases hb : wb.buffers.lookup inode with
    | none => exact ⟨hwb.insert inode hpath, hpath⟩
    | some buf => exact ⟨hwb, hwb inode buf hb⟩
  have hwrite := h.write hpath []
  unfold truncate
  generalize wb.getOrCreate now inode path size = got at hgot ⊢
  obtain ⟨buf, wb'⟩ := got
  obtain ⟨hwb', hkey⟩ := hgot
  dsimp only
  split
  · generalize cl.write path [] = w at hwrite ⊢
    obtain ⟨_ | _, t⟩ := w
    · exact ⟨hwb'.insert inode hkey, hwrite⟩
    · exact ⟨hwb'.insert inode hkey, hwrite⟩
  · exact ⟨hwb'.insert inode hkey, h⟩

theorem flushEach_asks (hwb : wb.KeysIn K) (h : cl.Asks b K start) (p : FileWriteBuffer → Bool)
    (inodes : List ℕ) :
    (wb.flushEach cl p inodes).2.1.KeysIn K ∧ (wb.flushEach cl p inodes).2.2.Asks b K start := by
  induction inodes generalizing wb cl with
  | nil => exact ⟨hwb, h⟩
  | cons inode inodes ih =>
    unfold flushEach
    cases hb : wb.buffers.lookup inode with
    | none => exact ih hwb h
    | some buf =>
      dsimp only
      split
      · obtain ⟨hkey, hcl⟩ := wb.config.flushBuffer_asks (hwb inode buf hb) h
        generalize wb.config.flushBuffer buf cl = r at hkey hcl ⊢
        obtain ⟨_ | _ | _, buf', t⟩ := r
        · exact ih (hwb.insert inode hkey) hcl
        · exact ⟨hwb.insert inode hkey, hcl⟩
        · exact ⟨hwb.insert inode hkey, hcl⟩
      · exact ih hwb h

theorem keysIn_any (wb : WriteBuffer) : wb.KeysIn fun _ => True := fun _ _ _ => trivial

theorem write_backend (wb : WriteBuffer) (cl : ObsClient) (now : Instant) (inode : ℕ)
    (path : Str) (offset : ℕ) (data : Bytes) (fileSize : ℕ) :
    (wb.write cl now inode path offset data fileSize).2.2.backend = cl.backend :=
  (write_asks wb.keysIn_any cl.asks_any trivial now inode offset data fileSize).2.backend

theorem flush_backend (wb : WriteBuffer) (cl : ObsClient) (inode : ℕ) :
    (wb.flush cl inode).2.2.backend = cl.backend :=
  (flush_asks wb.keysIn_any cl.asks_any inode).2.backend

theorem release_backend (wb : WriteBuffer) (cl : ObsClient) (inode : ℕ) :
    (wb.release cl inode).2.2.backend = cl.backend :=
  (release_asks wb.keysIn_any cl.asks_any inode).2.backend

theorem truncate_backend (wb : WriteBuffer) (cl : ObsClient) (now : Instant) (inode : ℕ)
    (path : Str) (size : ℕ) : (wb.truncate cl now inode path size).2.2.backend = cl.backend :=
  (truncate_asks wb.keysIn_any cl.asks_any trivial now inode size).2.backend

theorem flushEach_backend (wb : WriteBuffer) (cl : ObsClient) (p : FileWriteBuffer → Bool)
    (inodes : List ℕ) : (wb.flushEach cl p inodes).2.2.backend = cl.backend :=
  (flushEach_asks wb.keysIn_any cl.asks_any p inodes).2.backend

end WriteBuffer

end

end ObsFuse
