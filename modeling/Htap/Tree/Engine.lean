import Htap.Tree.OwnFiles

/-!
`LSMStorageEngine` with all its tables, on the file system they share. In memory the engine
tells tables apart by their names. On disk each tree works at the path its name makes, and
what a path leads to is up to the file system.
-/

namespace Htap.Tree

open Storage SSTable Read Cursor Words

/-! ## Paths -/

/-- A place in the file system: the names that lead to it from the root directory. -/
abbrev Location : Type := List Bytes

/-- One name of a path. No directory is a symbolic link, so `..` goes back. -/
def enter (place : Location) (name : Bytes) : Location :=
  if name = [] ∨ name = [46] then place
  else if name = [46, 46] then place.dropLast
  else place ++ [name]

/-- The names of a path. The system calls take C strings. -/
def pathNames (path : Bytes) : List Bytes := (path.takeWhile (· != 0)).splitOn 47

/-- Where a path starts. -/
def pathStart (cwd : Location) (path : Bytes) : Location :=
  if (path.takeWhile (· != 0)).head? = some 47 then [] else cwd

/-- What a path leads to from the working directory. -/
def locate (cwd : Location) (path : Bytes) : Location :=
  (pathNames path).foldl enter (pathStart cwd path)

/-- What the beginnings of a path lead to. `create_directories` makes each of them a directory,
also what a later `..` leaves again. -/
def beginnings (cwd : Location) (path : Bytes) : List Location :=
  (pathNames path).inits.map fun names => names.foldl enter (pathStart cwd path)

/-- `std::filesystem::path::operator/`. -/
def joinPath (root name : Bytes) : Bytes :=
  if name.head? = some 47 then name
  else if root = [] ∨ root.getLast? = some 47 then root ++ name
  else root ++ 47 :: name

/-- `manifest_path`: `dir / "manifest.bin"`. -/
def manifestPath (rootPath : Bytes) : Bytes :=
  joinPath rootPath [109, 97, 110, 105, 102, 101, 115, 116, 46, 98, 105, 110]

/-- `manifest_tmp_path`: `dir / "manifest.tmp"`. -/
def manifestTmpPath (rootPath : Bytes) : Bytes :=
  joinPath rootPath [109, 97, 110, 105, 102, 101, 115, 116, 46, 116, 109, 112]

/-! ## The file system -/

/-- SSTables, the files that manifests are written to, and the directories that were made. -/
structure FileSystem where
  cwd : Location
  sstables : Location → Option SSTableFiles
  manifests : Location → Option Bytes
  directories : Location → Bool := fun _ => false

namespace FileSystem

/-- The disk as the tree at `rootPath` sees it. -/
def view (files : FileSystem) (rootPath : Bytes) : Disk where
  sstables := fun path => files.sstables (locate files.cwd path)
  manifest := files.manifests (locate files.cwd (manifestPath rootPath))

def makeDirectories (files : FileSystem) (made : List Location) : FileSystem :=
  { files with directories := fun place => files.directories place || decide (place ∈ made) }

/-- `std::filesystem::create_directories`. -/
def createDirectories (files : FileSystem) (path : Bytes) : FileSystem :=
  files.makeDirectories (beginnings files.cwd path)

/-- A manifest file is written, and another is gone. -/
def putManifest (files : FileSystem) (written : Location) (contents : Bytes)
    (gone : Option Location) : FileSystem :=
  { files with
    manifests := fun place =>
      if place = written then some contents
      else if some place = gone then none else files.manifests place }

/-- `SSTableManifest::save`: `manifest.tmp` is written and renamed to `manifest.bin`. It throws
where `manifest.tmp` is a directory, and leaves `manifest.tmp` behind where `manifest.bin` is.
Flushes and compactions save last: what they changed in memory stays when the save throws. -/
def saveManifest (files : FileSystem) (rootPath : Bytes) (contents : Bytes) : FileSystem :=
  let tmp := locate files.cwd (manifestTmpPath rootPath)
  let dst := locate files.cwd (manifestPath rootPath)
  if files.directories tmp then files
  else if files.directories dst then files.putManifest tmp contents none
  else files.putManifest dst contents (some tmp)

/-- An operation of the tree at `rootPath`. `remove_all` takes everything beneath along. -/
def perform (files : FileSystem) (rootPath : Bytes) : DiskOp → FileSystem
  | .writeSSTable path written =>
    let files := files.createDirectories path
    { files with
      sstables := fun place =>
        if place = locate files.cwd path then some written else files.sstables place }
  | .removeSSTable path =>
    { files with
      sstables := fun place =>
        if locate files.cwd path <+: place then none else files.sstables place
      manifests := fun place =>
        if locate files.cwd path <+: place then none else files.manifests place
      directories := fun place =>
        if locate files.cwd path <+: place then false else files.directories place }
  | .writeManifest contents => files.saveManifest rootPath contents

def performAll (files : FileSystem) (rootPath : Bytes) (ops : List DiskOp) : FileSystem :=
  ops.foldl (fun files op => files.perform rootPath op) files

end FileSystem

/-! ## The engine -/

/-- A table in the state of its session, on the files as they are now. -/
def Session.mount (s : Session) (files : FileSystem) : Session :=
  { s with tree := s.tree.on (files.view s.tree.config.rootPath) }

structure Engine where
  config : StorageConfig
  files : FileSystem
  tables : Bytes → Option Session := fun _ => none

namespace Engine

/-- `table_path`. -/
def tablePath (e : Engine) (tableName : Bytes) : Bytes := joinPath e.config.rootPath tableName

def setTable (e : Engine) (tableName : Bytes) (s : Session) : Engine :=
  { e with tables := Function.update e.tables tableName (some s) }

theorem tables_setTable (e : Engine) (tableName other : Bytes) (s : Session) :
    (e.setTable tableName s).tables other = if other = tableName then some s else e.tables other :=
  Function.update_apply e.tables tableName (some s) other

/-- `create_table`. -/
def createTable (e : Engine) (tableName : Bytes) (schema : Schema) : Result Engine :=
  if (e.tables tableName).isSome then .error (.runtimeError "Table already exists")
  else do
    let path := e.tablePath tableName
    let tree ← LSMTree.create schema { e.config with rootPath := path } (e.files.view path)
    return { e.setTable tableName { tree := tree } with files := e.files.createDirectories path }

/-- A step of one table, `s` before it and `s'` after it. -/
def stepped (e : Engine) (tableName : Bytes) (s s' : Session) : Engine :=
  { e.setTable tableName s' with
    files := e.files.performAll s.tree.config.rootPath s'.tree.diskOps }

/-- Any of the tables goes on: insertions, scans, reads, and the sections of its flushes
and compactions. A table that is refused leaves directories of its path behind. -/
inductive Step (e : Engine) : Bytes → Engine → Prop
  | create {tableName : Bytes} {schema : Schema} {e' : Engine}
    (h : e.createTable tableName schema = .ok e') : Step e tableName e'
  | refused {tableName : Bytes} {made : List Location} (hfree : e.tables tableName = none)
    (hmade : ∀ place ∈ made, place ∈ beginnings e.files.cwd (e.tablePath tableName)) :
    Step e tableName { e with files := e.files.makeDirectories made }
  | table {tableName : Bytes} {s s' : Session} (htable : e.tables tableName = some s)
    (h : Session.Step (s.mount e.files) s') : Step e tableName (e.stepped tableName s s')

end Engine

/-! ## The files of a table -/

/-- The place belongs to an SSTable or the manifest of the tree at `rootPath`. -/
def Owns (cwd : Location) (rootPath : Bytes) (place : Location) : Prop :=
  (∃ id, locate cwd (sstPath rootPath id) <+: place) ∨
    locate cwd (manifestPath rootPath) <+: place ∨ locate cwd (manifestTmpPath rootPath) <+: place

/-- The place belongs to the tree, or is a directory that it makes. -/
def Touches (cwd : Location) (rootPath : Bytes) (place : Location) : Prop :=
  Owns cwd rootPath place ∨ place ∈ beginnings cwd rootPath ∨
    ∃ id, place ∈ beginnings cwd (sstPath rootPath id)

/-- Neither of the trees at the two paths touches what belongs to the other. -/
structure Apart (cwd : Location) (rootPath rootPath' : Bytes) : Prop where
  left : ∀ place, Touches cwd rootPath place → ¬ Owns cwd rootPath' place
  right : ∀ place, Touches cwd rootPath' place → ¬ Owns cwd rootPath place

theorem Apart.symm {cwd : Location} {a b : Bytes} (h : Apart cwd a b) : Apart cwd b a :=
  ⟨h.right, h.left⟩

/-- A place is as it was. -/
structure FileSystem.AlikeAt (files files' : FileSystem) (place : Location) : Prop where
  sstables : files'.sstables place = files.sstables place
  manifests : files'.manifests place = files.manifests place
  directories : files'.directories place = files.directories place

section

variable {files : FileSystem} {rootPath : Bytes} {place : Location}

theorem FileSystem.AlikeAt.refl (files : FileSystem) (place : Location) :
    files.AlikeAt files place := ⟨rfl, rfl, rfl⟩

theorem FileSystem.AlikeAt.trans {files' files'' : FileSystem} (h : files.AlikeAt files' place)
    (h' : files'.AlikeAt files'' place) : files.AlikeAt files'' place :=
  ⟨h'.sstables.trans h.sstables, h'.manifests.trans h.manifests,
    h'.directories.trans h.directories⟩

@[simp] theorem FileSystem.cwd_saveManifest (files : FileSystem) (rootPath contents : Bytes) :
    (files.saveManifest rootPath contents).cwd = files.cwd := by
  unfold saveManifest
  dsimp only
  split
  · rfl
  · split <;> rfl

@[simp] theorem FileSystem.cwd_perform (files : FileSystem) (rootPath : Bytes) (op : DiskOp) :
    (files.perform rootPath op).cwd = files.cwd := by
  cases op with
  | writeSSTable path written => rfl
  | removeSSTable path => rfl
  | writeManifest contents => exact files.cwd_saveManifest rootPath contents

theorem FileSystem.alikeAt_makeDirectories {made : List Location} (hplace : place ∉ made) :
    files.AlikeAt (files.makeDirectories made) place := by
  refine ⟨rfl, rfl, ?_⟩
  simp [makeDirectories, hplace]

private theorem FileSystem.alikeAt_putManifest {written : Location} {contents : Bytes}
    {gone : Option Location} (hwritten : place ≠ written) (hgone : some place ≠ gone) :
    files.AlikeAt (files.putManifest written contents gone) place :=
  ⟨rfl, by simp [putManifest, hwritten, hgone], rfl⟩

/-- A table's operation leaves places alone that the table does not touch. -/
theorem FileSystem.perform_frame {op : DiskOp} (hop : op.Own rootPath)
    (hplace : ¬ Touches files.cwd rootPath place) :
    files.AlikeAt (files.perform rootPath op) place := by
  have hsst : ∀ id, ¬ locate files.cwd (sstPath rootPath id) <+: place :=
    fun id hpre => hplace (Or.inl (Or.inl ⟨id, hpre⟩))
  cases op with
  | writeSSTable path written =>
    obtain ⟨id, rfl⟩ := hop
    have hmade := files.alikeAt_makeDirectories fun hmem => hplace (Or.inr (Or.inr ⟨id, hmem⟩))
    refine ⟨if_neg ?_, hmade.manifests, hmade.directories⟩
    rintro rfl
    exact hsst id List.prefix_rfl
  | removeSSTable path =>
    obtain ⟨id, rfl⟩ := hop
    exact ⟨if_neg (hsst id), if_neg (hsst id), if_neg (hsst id)⟩
  | writeManifest contents =>
    have hdst : place ≠ locate files.cwd (manifestPath rootPath) := by
      rintro rfl
      exact hplace (Or.inl (Or.inr (Or.inl List.prefix_rfl)))
    have htmp : place ≠ locate files.cwd (manifestTmpPath rootPath) := by
      rintro rfl
      exact hplace (Or.inl (Or.inr (Or.inr List.prefix_rfl)))
    rw [perform, saveManifest]
    split
    · exact .refl files place
    · split
      · exact alikeAt_putManifest htmp (by simp)
      · exact alikeAt_putManifest hdst (by simpa using htmp)

theorem FileSystem.performAll_frame {ops : List DiskOp} (hops : ∀ op ∈ ops, op.Own rootPath)
    (hplace : ¬ Touches files.cwd rootPath place) :
    files.AlikeAt (files.performAll rootPath ops) place := by
  induction ops generalizing files with
  | nil => exact .refl files place
  | cons op ops ih =>
    have hfirst := perform_frame (hops op List.mem_cons_self) hplace
    have hplace' : ¬ Touches (files.perform rootPath op).cwd rootPath place := by
      rw [cwd_perform]
      exact hplace
    have hlater : ∀ later ∈ ops, later.Own rootPath :=
      fun later hmem => hops later (List.mem_cons_of_mem op hmem)
    exact hfirst.trans (ih hlater hplace')

@[simp] theorem FileSystem.cwd_performAll (files : FileSystem) (rootPath : Bytes)
    (ops : List DiskOp) : (files.performAll rootPath ops).cwd = files.cwd := by
  induction ops generalizing files with
  | nil => rfl
  | cons op ops ih => exact (ih (files.perform rootPath op)).trans (cwd_perform files rootPath op)

end

/-! ## Plain names -/

/-- A name that is one component of a path, and neither `.` nor `..`. -/
structure PlainName (name : Bytes) : Prop where
  nonempty : name ≠ []
  component : 47 ∉ name
  text : 0 ∉ name
  here : name ≠ [46]
  back : name ≠ [46, 46]

private theorem enter_plain {name : Bytes} (h : PlainName name) (place : Location) :
    enter place name = place ++ [name] := by
  unfold enter
  rw [if_neg, if_neg h.back]
  rintro (hnil | hdot)
  · exact h.nonempty hnil
  · exact h.here hdot

/-- A path as the system calls take it. -/
private theorem locate_text {path : Bytes} (hpath : 0 ∉ path) (cwd : Location) :
    locate cwd path =
      (path.splitOn 47).foldl enter (if path.head? = some 47 then [] else cwd) := by
  have htext : path.takeWhile (· != 0) = path := by
    apply List.takeWhile_eq_self_iff.mpr
    intro byte hbyte
    apply bne_iff_ne.mpr
    rintro rfl
    exact hpath hbyte
  rw [locate, pathNames, pathStart, htext]

/-- The last component of a path. -/
private theorem locate_concat {path name : Bytes} (hpath : 0 ∉ path) (hname : PlainName name)
    (cwd : Location) :
    locate cwd (path ++ 47 :: name) = (if path = [] then [] else locate cwd path) ++ [name] := by
  have hzero : 0 ∉ path ++ 47 :: name := by
    intro hmem
    rcases List.mem_append.mp hmem with hin | hin
    · exact hpath hin
    · rcases List.mem_cons.mp hin with heq | hin
      · cases heq
      · exact hname.text hin
  rw [locate_text hzero, List.splitOn_append_cons_self, List.splitOn_eq_singleton hname.component,
    List.foldl_append, List.foldl_cons, List.foldl_nil, enter_plain hname]
  cases path with
  | nil => rfl
  | cons byte path =>
    rw [if_neg (List.cons_ne_nil byte path), locate_text hpath]
    rfl

/-- A plain name below a path leads one directory further. -/
theorem locate_joinPath {root name : Bytes} (hroot : 0 ∉ root) (hname : PlainName name)
    (cwd : Location) : locate cwd (joinPath root name) = locate cwd root ++ [name] := by
  have hhead : name.head? ≠ some 47 := by
    intro hslash
    exact hname.component (List.mem_of_mem_head? hslash)
  unfold joinPath
  rw [if_neg hhead]
  split
  · rename_i hends
    rcases List.eq_nil_or_concat root with rfl | ⟨init, last, rfl⟩
    · rw [List.nil_append, locate_text hname.text, List.splitOn_eq_singleton hname.component,
        if_neg hhead]
      exact enter_plain hname cwd
    · rw [List.concat_eq_append] at hends hroot ⊢
      have hlast : last = 47 := by simpa using hends
      subst hlast
      have hinit : 0 ∉ init := fun hmem => hroot (List.mem_append_left _ hmem)
      have hslash : locate cwd (init ++ [47]) = if init = [] then [] else locate cwd init := by
        rw [locate_text hroot, List.splitOn_append_cons_self, List.foldl_append]
        cases init with
        | nil => rfl
        | cons byte init =>
          rw [if_neg (List.cons_ne_nil byte init), locate_text hinit]
          rfl
      rw [List.append_assoc, List.singleton_append, locate_concat hinit hname, hslash]
  · rename_i hends
    rw [locate_concat hroot hname, if_neg fun hnil => hends (Or.inl hnil)]

private theorem decimalDigits_range {width n : Nat} :
    ∀ digit ∈ decimalDigits width n, 48 ≤ digit.toNat ∧ digit.toNat < 58 := by
  induction width generalizing n with
  | zero =>
    intro digit hdigit
    cases hdigit
  | succ width ih =>
    intro digit hdigit
    rcases List.mem_append.mp hdigit with hin | hin
    · exact ih digit hin
    · rw [List.mem_singleton.mp hin, UInt8.toNat_ofNat']
      omega

/-- The name of an SSTable's directory. -/
private theorem plainName_sst (id : Nat) :
    PlainName ([115, 115, 116, 95] ++ decimalDigits 20 id ++ [46, 115, 115, 116]) := by
  have hno : ∀ byte : UInt8, byte.toNat < 48 → byte ∉ [115, 115, 116, 95, 46] →
      byte ∉ [115, 115, 116, 95] ++ decimalDigits 20 id ++ [46, 115, 115, 116] := by
    intro byte hlow hletter hmem
    simp only [List.mem_append] at hmem
    rcases hmem with (hin | hin) | hin
    · exact hletter (by simp only [List.mem_cons, List.not_mem_nil, or_false] at hin ⊢; tauto)
    · have hrange := decimalDigits_range byte hin
      omega
    · exact hletter (by simp only [List.mem_cons, List.not_mem_nil, or_false] at hin ⊢; tauto)
  constructor
  · simp
  · exact hno 47 (by decide) (by decide)
  · exact hno 0 (by decide) (by decide)
  · simp
  · simp

private theorem plainName_manifest :
    PlainName [109, 97, 110, 105, 102, 101, 115, 116, 46, 98, 105, 110] := by
  constructor
  all_goals decide

private theorem plainName_manifestTmp :
    PlainName [109, 97, 110, 105, 102, 101, 115, 116, 46, 116, 109, 112] := by
  constructor
  all_goals decide

/-- A path that never goes back. -/
structure ForwardPath (path : Bytes) : Prop where
  text : 0 ∉ path
  forward : [46, 46] ∉ path.splitOn 47

private theorem ForwardPath.concat {path name : Bytes} (h : ForwardPath path)
    (hname : PlainName name) : ForwardPath (path ++ 47 :: name) := by
  constructor
  · intro hmem
    rcases List.mem_append.mp hmem with hin | hin
    · exact h.text hin
    · rcases List.mem_cons.mp hin with heq | hin
      · cases heq
      · exact hname.text hin
  · rw [List.splitOn_append_cons_self, List.splitOn_eq_singleton hname.component]
    intro hmem
    rcases List.mem_append.mp hmem with hin | hin
    · exact h.forward hin
    · exact hname.back (List.mem_singleton.mp hin).symm

private theorem ForwardPath.join {root name : Bytes} (h : ForwardPath root)
    (hname : PlainName name) : ForwardPath (joinPath root name) := by
  have hhead : name.head? ≠ some 47 := by
    intro hslash
    exact hname.component (List.mem_of_mem_head? hslash)
  unfold joinPath
  rw [if_neg hhead]
  split
  · rename_i hends
    rcases List.eq_nil_or_concat root with rfl | ⟨init, last, rfl⟩
    · rw [List.nil_append]
      refine ⟨hname.text, ?_⟩
      rw [List.splitOn_eq_singleton hname.component]
      intro hmem
      exact hname.back (List.mem_singleton.mp hmem).symm
    · rw [List.concat_eq_append] at hends h ⊢
      have hlast : last = 47 := by simpa using hends
      subst hlast
      have hinit : ForwardPath init := by
        obtain ⟨htext, hforward⟩ := h
        rw [List.splitOn_append_cons_self] at hforward
        exact ⟨fun hmem => htext (List.mem_append_left _ hmem),
          fun hmem => hforward (List.mem_append_left _ hmem)⟩
      rw [List.append_assoc, List.singleton_append]
      exact hinit.concat hname
  · exact h.concat hname

private theorem prefix_foldl_enter {names : List Bytes} (h : [46, 46] ∉ names)
    (place : Location) : place <+: names.foldl enter place := by
  induction names generalizing place with
  | nil => exact List.prefix_rfl
  | cons name names ih =>
    have hfirst : place <+: enter place name := by
      unfold enter
      split
      · exact List.prefix_rfl
      · have hforward : name ≠ [46, 46] := by
          rintro rfl
          exact h List.mem_cons_self
        rw [if_neg hforward]
        exact List.prefix_append place [name]
    exact hfirst.trans (ih (fun hmem => h (List.mem_cons_of_mem name hmem)) _)

/-- A path that never goes back makes directories on its way only. -/
private theorem ForwardPath.prefix_locate {path : Bytes} (h : ForwardPath path) {cwd : Location}
    {place : Location} (hplace : place ∈ beginnings cwd path) : place <+: locate cwd path := by
  obtain ⟨names, hnames, rfl⟩ := List.mem_map.mp hplace
  obtain ⟨more, hmore⟩ := (List.mem_inits names (pathNames path)).mp hnames
  have htext : path.takeWhile (· != 0) = path := by
    apply List.takeWhile_eq_self_iff.mpr
    intro byte hbyte
    apply bne_iff_ne.mpr
    rintro rfl
    exact h.text hbyte
  rw [locate, ← hmore, List.foldl_append]
  apply prefix_foldl_enter
  intro hmem
  apply h.forward
  rw [← htext, show (path.takeWhile (· != 0)).splitOn 47 = pathNames path from rfl, ← hmore]
  exact List.mem_append_right names hmem

section

variable {cwd : Location} {root name : Bytes} {place : Location}

private theorem joinPath_ne_nil (hname : PlainName name) : joinPath root name ≠ [] := by
  unfold joinPath
  split
  · exact hname.nonempty
  · split
    · simp [hname.nonempty]
    · simp

/-- Where the SSTables of a table with a plain name are. -/
private theorem locate_sstPath (hroot : ForwardPath root) (hname : PlainName name)
    (cwd : Location) (id : Nat) :
    ForwardPath (sstPath (joinPath root name) id) ∧
      ∃ sst, locate cwd (sstPath (joinPath root name) id) = locate cwd root ++ [name] ++ [sst] := by
  have hpath : sstPath (joinPath root name) id = joinPath root name ++
      47 :: ([115, 115, 116, 95] ++ decimalDigits 20 id ++ [46, 115, 115, 116]) := by
    simp [sstPath]
  have hjoined := hroot.join hname
  rw [hpath]
  refine ⟨hjoined.concat (plainName_sst id),
    [115, 115, 116, 95] ++ decimalDigits 20 id ++ [46, 115, 115, 116], ?_⟩
  rw [locate_concat hjoined.text (plainName_sst id), if_neg (joinPath_ne_nil hname),
    locate_joinPath hroot.text hname]

/-- A table with a plain name owns places in the directory of that name only. -/
theorem Owns.below (hroot : ForwardPath root) (hname : PlainName name)
    (h : Owns cwd (joinPath root name) place) : locate cwd root ++ [name] <+: place := by
  have hjoined := hroot.join hname
  rcases h with ⟨id, hpre⟩ | hpre | hpre
  · obtain ⟨-, sst, hplace⟩ := locate_sstPath hroot hname cwd id
    rw [hplace] at hpre
    exact (List.prefix_append _ _).trans hpre
  · rw [manifestPath, locate_joinPath hjoined.text plainName_manifest,
      locate_joinPath hroot.text hname] at hpre
    exact (List.prefix_append _ _).trans hpre
  · rw [manifestTmpPath, locate_joinPath hjoined.text plainName_manifestTmp,
      locate_joinPath hroot.text hname] at hpre
    exact (List.prefix_append _ _).trans hpre

/-- What it touches besides is on the way to its SSTables. -/
private theorem Touches.near (hroot : ForwardPath root) (hname : PlainName name)
    (h : Touches cwd (joinPath root name) place) :
    ∃ whole, locate cwd root ++ [name] <+: whole ∧
      (place <+: whole ∨ whole <+: place) := by
  rcases h with howned | hmade | ⟨id, hmade⟩
  · exact ⟨_, List.prefix_rfl, Or.inr (howned.below hroot hname)⟩
  · have hpre := (hroot.join hname).prefix_locate hmade
    rw [locate_joinPath hroot.text hname] at hpre
    exact ⟨_, List.prefix_rfl, Or.inl hpre⟩
  · obtain ⟨hforward, sst, hplace⟩ := locate_sstPath hroot hname cwd id
    have hpre := hforward.prefix_locate hmade
    rw [hplace] at hpre
    exact ⟨_, List.prefix_append _ _, Or.inl hpre⟩

end

/-- Tables with different plain names keep apart. -/
theorem apart_of_plain {cwd : Location} {root a b : Bytes} (hroot : ForwardPath root)
    (ha : PlainName a) (hb : PlainName b) (hne : a ≠ b) :
    Apart cwd (joinPath root a) (joinPath root b) := by
  have hoff : ∀ {a b : Bytes}, PlainName a → PlainName b → a ≠ b → ∀ place,
      Touches cwd (joinPath root a) place → ¬ Owns cwd (joinPath root b) place := by
    intro a b ha hb hne place htouched howned
    obtain ⟨whole, hwhole, hnear⟩ := htouched.near hroot ha
    have hbelow := howned.below hroot hb
    have hlength : (locate cwd root ++ [a]).length = (locate cwd root ++ [b]).length := by simp
    -- both directories are on the way to the longer of the two places
    have hsame : locate cwd root ++ [a] = locate cwd root ++ [b] := by
      rcases hnear with hshort | hlong
      · exact (List.prefix_of_prefix_length_le hwhole (hbelow.trans hshort)
          hlength.le).eq_of_length hlength
      · exact (List.prefix_of_prefix_length_le (hwhole.trans hlong) hbelow
          hlength.le).eq_of_length hlength
    exact hne (List.singleton_injective (List.append_cancel_left hsame))
  exact ⟨hoff ha hb hne, hoff hb ha hne.symm⟩

end Htap.Tree
