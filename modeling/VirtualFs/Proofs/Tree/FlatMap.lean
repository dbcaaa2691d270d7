import Mathlib.Data.List.Sort
import VirtualFs.Proofs.Path.Keys
import VirtualFs.Proofs.Tree.Nodes
import VirtualFs.Tree.Session

namespace VirtualFs.Flat

/-- What stands at a key. -/
inductive Item where
  | dir
  | file (bytes : Bytes)
  deriving Repr, DecidableEq

def Item.isFile : Item → Bool
  | dir => false
  | file _ => true

abbrev Key := List String

/-- The key of a path: its segments without those that are `"."`. -/
def keyOf (segments : List String) : Key :=
  segments.filter (· != ".")

/-- What is known of an item from outside: its path, its type and its size. -/
structure Summary where
  path : String
  isDir : Bool
  size : Nat
  deriving Repr, DecidableEq

def Item.summary (key : Key) : Item → Summary
  | dir => ⟨Path.ofKey key, true, 0⟩
  | file bytes => ⟨Path.ofKey key, false, bytes.length⟩

/-- Finitely many keys and what stands at them. -/
abbrev Map := List (Key × Item)

namespace Map

/-- The root alone. -/
def root : Map :=
  [([], .dir)]

def find (map : Map) (key : Key) : Option Item :=
  map.lookup key

/-- Puts an item at a key, in place of what is there. -/
def put (map : Map) (key : Key) (item : Item) : Map :=
  (key, item) :: map.filter (·.1 != key)

/-- A file stands at one of the keys that lead on from `front` along the names. -/
def fileAlong (map : Map) (front : Key) : List String → Bool
  | [] => false
  | name :: rest =>
    (map.find (front ++ [name])).any Item.isFile || map.fileAlong (front ++ [name]) rest

/-- The item at a key: a file at a proper prefix of the key is in the way of everything else. -/
def stat (map : Map) (key : Key) : Except ErrorKind Item :=
  if map.fileAlong [] key.dropLast then .error .notADirectory
  else
    match map.find key with
    | some item => .ok item
    | none => .error .notFound

/-- A directory stands at the key. -/
def dirAt (map : Map) (key : Key) : Except ErrorKind Unit :=
  match map.stat key with
  | .error e => .error e
  | .ok (.file _) => .error .notADirectory
  | .ok .dir => .ok ()

/-- Puts a directory at each of the keys that lead on from `front` along the names where nothing
stands yet. -/
def fill (map : Map) (front : Key) : List String → Map
  | [] => map
  | name :: rest =>
    match map.find (front ++ [name]) with
    | some _ => map.fill (front ++ [name]) rest
    | none => (map.put (front ++ [name]) .dir).fill (front ++ [name]) rest

/-- A directory at the key of the segments, if its parent is a directory and nothing is there. -/
def mkdir (map : Map) (segments : List String) : Except ErrorKind Unit × Map :=
  if segments.getLast? = some "." then (.error .invalidPath, map)
  else
    match map.dirAt (keyOf segments.dropLast) with
    | .error e => (.error e, map)
    | .ok () =>
      match map.find (keyOf segments) with
      | some _ => (.error .alreadyExists, map)
      | none => (.ok (), map.put (keyOf segments) .dir)

/-- Directories at all prefixes of the key where there is nothing, if none of them is a file. -/
def mkdirAll (map : Map) (key : Key) : Except ErrorKind Unit × Map :=
  if map.fileAlong [] key then (.error .notADirectory, map)
  else (.ok (), map.fill [] key)

/-- An empty file at the key with all its parents, if no file is in the way. A directory at the key
is left alone. -/
def renew (map : Map) (key : Key) : Except ErrorKind Item × Map :=
  match map.stat key with
  | .ok .dir => (.ok .dir, map)
  | .ok (.file _) => (.ok (.file []), map.put key (.file []))
  | .error .notFound => (.ok (.file []), (map.fill [] key.dropLast).put key (.file []))
  | .error e => (.error e, map)

/-- The bytes as the content of the file at the key. -/
def writeFile (map : Map) (key : Key) (data : Bytes) : Except ErrorKind Unit × Map :=
  match map.renew key with
  | (.error e, map) => (.error e, map)
  | (.ok .dir, map) => (.error .isADirectory, map)
  | (.ok (.file _), map) => (.ok (), map.put key (.file data))

/-- The content of the file at the key. -/
def content (map : Map) (key : Key) : Except ErrorKind Bytes :=
  match map.stat key with
  | .error e => .error e
  | .ok .dir => .error .isADirectory
  | .ok (.file bytes) => .ok bytes

/-- The name that leads from one key to another. -/
def nameBelow (key child : Key) : Option String :=
  child.getLast?.filter fun name => child = key ++ [name]

/-- The names that lead to other keys from this one, in the order of their bytes. -/
def childNames (map : Map) (key : Key) : List String :=
  ((map.map (·.1)).filterMap (nameBelow key)).insertionSort fun a b => Text.utf8 a ≤ Text.utf8 b

/-- The items in the directory at the key. -/
def readDir (map : Map) (key : Key) : Except ErrorKind (List Summary) :=
  match map.dirAt key with
  | .error e => .error e
  | .ok () =>
    .ok ((map.childNames key).filterMap fun name =>
      (map.find (key ++ [name])).map (Item.summary (key ++ [name])))

end Map

/-- An operation with a path that consists of these segments. What it does is decided by looking up
keys; no directories hold names, and nothing descends. -/
inductive Command where
  | mkdir (path : List String) (mode : FileMode)
  | mkdirAll (path : List String) (mode : FileMode)
  | create (path : List String)
  | writeFile (path : List String) (data : Bytes) (mode : FileMode)
  | content (path : List String)
  | stat (path : List String)
  | exists? (path : List String)
  | readDir (path : List String)

/-- What an operation that succeeds answers. -/
inductive Answer where
  | done
  | opened
  | verdict (found : Bool)
  | data (bytes : Bytes)
  | summary (summary : Summary)
  | summaries (summaries : List Summary)
  deriving Repr, DecidableEq

namespace Map

/-- One operation. Modes play no part in a flat map. -/
def step (map : Map) : Command → Except ErrorKind Answer × Map
  | .mkdir path _ =>
    let (result, map) := map.mkdir path
    (result.map fun _ => .done, map)
  | .mkdirAll path _ =>
    let (result, map) := map.mkdirAll (keyOf path)
    (result.map fun _ => .done, map)
  | .create path =>
    let (result, map) := map.renew (keyOf path)
    (result.map fun _ => .opened, map)
  | .writeFile path data _ =>
    let (result, map) := map.writeFile (keyOf path) data
    (result.map fun _ => .done, map)
  | .content path => ((map.content (keyOf path)).map .data, map)
  | .stat path =>
    ((map.stat (keyOf path)).map fun item => .summary (item.summary (keyOf path)), map)
  | .exists? path => (.ok (.verdict (map.stat (keyOf path)).isOk), map)
  | .readDir path => ((map.readDir (keyOf path)).map .summaries, map)

def run (map : Map) : List Command → List (Except ErrorKind Answer) × Map
  | [] => ([], map)
  | command :: rest =>
    let (answer, map) := map.step command
    let (answers, map) := run map rest
    (answer :: answers, map)

variable (map : Map) {key front : Key} {item : Item}

theorem find_put (key : Key) (item : Item) (query : Key) :
    (map.put key item).find query = if query = key then some item else map.find query := by
  unfold find put
  by_cases hquery : query = key
  · simp [hquery]
  · have hskip : (query == key) = false := by simpa using hquery
    rw [List.lookup_cons, hskip, if_neg hquery]
    change (map.filter (·.1 != key)).lookup query = map.lookup query
    induction map with
    | nil => rfl
    | cons head rest ih =>
      obtain ⟨k, found⟩ := head
      rw [List.filter_cons]
      by_cases hk : k = key
      · have hother : (query == k) = false := by simpa [hk] using hquery
        rw [if_neg (by simpa using hk), List.lookup_cons, hother]
        exact ih
      · rw [if_pos (by simpa using hk), List.lookup_cons, List.lookup_cons, ih]

theorem put_put (key : Key) (first second : Item) :
    (map.put key first).put key second = map.put key second := by
  simp [put, List.filter_filter]

theorem mem_put {key query : Key} {item found : Item}
    (hmem : (query, found) ∈ map.put key item) : query = key ∨ (query, found) ∈ map := by
  rcases List.mem_cons.mp hmem with heq | hold
  · exact .inl (Prod.mk.inj heq).1
  · exact .inr (List.mem_filter.mp hold).1

theorem nodup_put (hnodup : (map.map (·.1)).Nodup) (key : Key) (item : Item) :
    ((map.put key item).map (·.1)).Nodup := by
  unfold put
  rw [List.map_cons, List.nodup_cons]
  refine ⟨?_, hnodup.sublist (List.filter_sublist.map _)⟩
  intro hmem
  obtain ⟨⟨k, found⟩, hk, rfl⟩ := List.mem_map.mp hmem
  simp at hk

/-- Nothing leads on along a way on which nothing is found. -/
theorem fileAlong_eq_false {names : List String}
    (hnone : ∀ back, back ≠ [] → back <+: names → map.find (front ++ back) = none) :
    map.fileAlong front names = false := by
  induction names generalizing front with
  | nil => rfl
  | cons name rest ih =>
    have hfirst := hnone [name] (by simp) (by simp)
    simp only [fileAlong, hfirst, Option.any_none, Bool.false_or]
    apply ih
    intro back hback hprefix
    rw [List.append_assoc]
    exact hnone (name :: back) (by simp) (by simpa using hprefix)

/-- Filling up puts nothing at keys that are longer. -/
theorem find_fill_of_length {names : List String} {query : Key}
    (hlength : front.length + names.length < query.length) :
    (map.fill front names).find query = map.find query := by
  induction names generalizing map front with
  | nil => rfl
  | cons name rest ih =>
    simp only [List.length_cons] at hlength
    have hrest : (front ++ [name]).length + rest.length < query.length := by
      simp only [List.length_append, List.length_singleton]
      omega
    unfold fill
    split
    · exact ih map hrest
    · rw [ih _ hrest, find_put, if_neg]
      rintro rfl
      simp only [List.length_append, List.length_singleton] at hlength
      omega

theorem nameBelow_eq_some_iff {child : Key} {name : String} :
    nameBelow key child = some name ↔ child = key ++ [name] := by
  unfold nameBelow
  rw [Option.filter_eq_some_iff]
  constructor
  · rintro ⟨-, heq⟩
    simpa using heq
  · rintro rfl
    simp

theorem mem_childNames {name : String} :
    name ∈ map.childNames key ↔ (map.find (key ++ [name])).isSome := by
  unfold childNames find
  rw [List.mem_insertionSort, List.mem_filterMap, Tree.isSome_lookup_iff]
  simp only [nameBelow_eq_some_iff, exists_eq_right]

/-- The names stand in the order of their bytes, none of them twice. -/
theorem sorted_childNames (hnodup : (map.map (·.1)).Nodup) :
    (map.childNames key).Pairwise fun a b => Text.before a b = true := by
  have htotal : Std.Total fun a b : String => Text.utf8 a ≤ Text.utf8 b :=
    ⟨fun _ _ => List.le_total _ _⟩
  have htrans : IsTrans String fun a b : String => Text.utf8 a ≤ Text.utf8 b :=
    ⟨fun _ _ _ => List.le_trans⟩
  have hle : (map.childNames key).Pairwise fun a b => Text.utf8 a ≤ Text.utf8 b :=
    List.pairwise_insertionSort _ _
  have hne : (map.childNames key).Nodup := by
    unfold childNames
    rw [(List.perm_insertionSort _ _).nodup_iff]
    refine hnodup.filterMap fun a a' name ha ha' => ?_
    rw [nameBelow_eq_some_iff.mp ha, nameBelow_eq_some_iff.mp ha']
  refine (hle.and hne).imp fun {a b} hab => ?_
  rcases List.le_iff_lt_or_eq.mp hab.1 with hlt | heq
  · simpa [Text.before] using hlt
  · exact absurd (Text.utf8_inj.mp heq) hab.2

end Map

end VirtualFs.Flat
