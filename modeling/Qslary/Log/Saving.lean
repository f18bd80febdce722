import Qslary.Log.Model

/-!
# Saving and loading definitions

Reading back what has been written gives the definition, but for the levels of its
appenders: they are written, and nothing reads them.
-/

namespace Qslary.Log

open Qslary.Foundation
open Qslary.Config (Node)

theorem ascii_inj {s t : String} : ascii s = ascii t ↔ s = t := by
  constructor
  · intro h
    simp only [ascii, String.toUTF8_eq_toByteArray] at h
    have hdata := Array.toList_inj.mp h
    exact String.toByteArray_inj.mp (ByteArray.ext hdata)
  · rintro rfl
    rfl

theorem map_eq_self_iff {α : Type} {f : α → α} {l : List α} :
    l.map f = l ↔ ∀ a ∈ l, f a = a := by
  have hiff : l.map f = l.map id ↔ ∀ a ∈ l, f a = id a := List.map_inj_left
  rwa [List.map_id] at hiff

namespace LogLevel

/-- What is written for a level, or for none, is read as that level. -/
theorem fromString_toString (level : LogLevel) : FromString level.ToString = level := by
  cases level <;> decide

theorem fromString_nil : FromString [] = UNKONW := by
  decide

end LogLevel

namespace LogAppenderDefine

/-- Only a file appender has a file. -/
def Saveable (a : LogAppenderDefine) : Prop := a.type = 1 ∧ a.file = [] ∨ a.type = 2

def withoutLevel (a : LogAppenderDefine) : LogAppenderDefine := { a with level := .UNKONW }

theorem withoutLevel_eq_iff (a : LogAppenderDefine) : a.withoutLevel = a ↔ a.level = .UNKONW := by
  constructor
  · intro h
    rw [← h]
    rfl
  · intro h
    rw [withoutLevel, ← h]

end LogAppenderDefine

namespace LogDefine

def Saveable (d : LogDefine) : Prop := ∀ a ∈ d.appenders, a.Saveable

def withoutLevels (d : LogDefine) : LogDefine :=
  { d with appenders := d.appenders.map LogAppenderDefine.withoutLevel }

/-- No appender has a level of its own. -/
def LevelFree (d : LogDefine) : Prop := ∀ a ∈ d.appenders, a.level = .UNKONW

theorem withoutLevels_eq_iff (d : LogDefine) : d.withoutLevels = d ↔ d.LevelFree := by
  have happenders : d.withoutLevels = d ↔
      d.appenders.map LogAppenderDefine.withoutLevel = d.appenders := by
    constructor
    · exact congrArg LogDefine.appenders
    · intro h
      rw [withoutLevels, h]
  rw [happenders, map_eq_self_iff]
  exact forall₂_congr fun a _ => a.withoutLevel_eq_iff

end LogDefine

section

variable {yaml : Yaml}

/-! ## Fields of what is written -/

theorem field_nil (key : String) : field (.map []) key = some none := rfl

theorem field_cons (head : Node × Node) (entries : List (Node × Node)) (key : String) :
    field (.map (head :: entries)) key =
      if head.1.Scalar = ascii key then some (some head.2) else field (.map entries) key := by
  rw [field, List.find?_cons]
  by_cases h : head.1.Scalar = ascii key
  · simp [h]
  · simp [h, field]

theorem field_entry (key : String) (value : Bytes) (entries : List (Node × Node))
    (other : String) :
    field (.map (entry key value :: entries)) other =
      if key = other then some (some (.scalar value)) else field (.map entries) other := by
  rw [field_cons]
  simp only [entry, Node.Scalar, ascii_inj]

theorem field_levelEntry (level : LogLevel) (entries : List (Node × Node)) (key : String) :
    field (.map (levelEntry level ++ entries)) key =
      if level ≠ .UNKONW ∧ key = "level" then some (some (.scalar level.ToString))
      else field (.map entries) key := by
  unfold levelEntry
  split
  · rename_i hlevel
    rw [List.singleton_append, field_entry]
    simp only [hlevel, ne_eq, not_false_eq_true, true_and, eq_comm]
  · rename_i hlevel
    rw [if_neg fun h => hlevel h.1, List.nil_append]

theorem field_formatterEntry (formatter : Bytes) (entries : List (Node × Node)) (key : String) :
    field (.map (formatterEntry formatter ++ entries)) key =
      if formatter ≠ [] ∧ key = "formatter" then some (some (.scalar formatter))
      else field (.map entries) key := by
  unfold formatterEntry
  split
  · rename_i hformatter
    rw [List.singleton_append, field_entry]
    simp only [hformatter, ne_eq, not_false_eq_true, true_and, eq_comm]
  · rename_i hformatter
    rw [if_neg fun h => hformatter h.1, List.nil_append]

theorem text_of_field (hstring : ∀ text, yaml.asString (.scalar text) = some text) {node : Node}
    {key : String} {value : Bytes} {p : Prop} [Decidable p] (default : Bytes)
    (h : field node key = if p then some (some (.scalar value)) else some none) :
    text yaml node key default = some (if p then value else default) := by
  rw [text, h]
  split
  · simp [hstring]
  · rfl

/-- The formatter stands behind entries of other names, and is left out if it is empty. -/
theorem text_formatter (hstring : ∀ text, yaml.asString (.scalar text) = some text)
    (level : LogLevel) (formatter : Bytes) {node : Node} {entries : List (Node × Node)}
    (hnode : field node "formatter" =
      field (.map (levelEntry level ++ (formatterEntry formatter ++ entries))) "formatter")
    (hentries : field (.map entries) "formatter" = some none) :
    text yaml node "formatter" [] = some formatter := by
  have hfield : field node "formatter" =
      if formatter ≠ [] then some (some (.scalar formatter)) else some none := by
    rw [hnode, field_levelEntry, if_neg (by simp), field_formatterEntry, hentries]
    simp
  rw [text_of_field hstring [] hfield]
  split
  · rfl
  · rename_i hempty
    rw [not_not.mp hempty]

/-! ## One appender -/

theorem readAppender_stdout (hstring : ∀ text, yaml.asString (.scalar text) = some text)
    (level : LogLevel) (formatter : Bytes) :
    readAppender yaml (writeAppender ⟨1, level, formatter, []⟩) =
      some (some ⟨1, .UNKONW, formatter, []⟩) := by
  have hnode : writeAppender ⟨1, level, formatter, []⟩ =
      .map (entry "type" (ascii "StdoutLogAppender") ::
        (levelEntry level ++ (formatterEntry formatter ++ []))) := by
    rw [List.append_nil]
    rfl
  rw [hnode]
  have hformatter := text_formatter hstring level formatter
    (field_entry "type" (ascii "StdoutLogAppender") _ "formatter") (field_nil "formatter")
  rw [readAppender, field_entry, if_pos rfl]
  simp only [Option.bind_eq_bind, Option.bind_some, hstring, ascii_inj, hformatter]
  rfl

theorem readAppender_file (hstring : ∀ text, yaml.asString (.scalar text) = some text)
    (level : LogLevel) (formatter file : Bytes) :
    readAppender yaml (writeAppender ⟨2, level, formatter, file⟩) =
      some (some ⟨2, .UNKONW, formatter, file⟩) := by
  have hnode : writeAppender ⟨2, level, formatter, file⟩ =
      .map (entry "type" (ascii "FileLogAppender") :: entry "file" file ::
        (levelEntry level ++ (formatterEntry formatter ++ []))) := by
    rw [List.append_nil]
    rfl
  rw [hnode]
  have hfile : field (.map (entry "type" (ascii "FileLogAppender") :: entry "file" file ::
      (levelEntry level ++ (formatterEntry formatter ++ [])))) "file" =
        some (some (.scalar file)) := by
    rw [field_entry, if_neg (by decide), field_entry, if_pos rfl]
  have hformatter := text_formatter hstring level formatter
    ((field_entry "type" (ascii "FileLogAppender") _ "formatter").trans
      (field_entry "file" file _ "formatter")) (field_nil "formatter")
  rw [readAppender, field_entry, if_pos rfl]
  simp only [Option.bind_eq_bind, Option.bind_some, hstring, if_pos, hfile, hformatter]

theorem readAppender_writeAppender
    (hstring : ∀ text, yaml.asString (.scalar text) = some text)
    {a : LogAppenderDefine} (h : a.Saveable) :
    readAppender yaml (writeAppender a) = some (some a.withoutLevel) := by
  obtain ⟨type, level, formatter, file⟩ := a
  rcases h with ⟨rfl, rfl⟩ | rfl
  · exact readAppender_stdout hstring level formatter
  · exact readAppender_file hstring level formatter file

/-! ## One definition -/

/-- The appenders of a definition, as the last of its entries. -/
def appendersEntry (appenders : List LogAppenderDefine) : List (Node × Node) :=
  if appenders.isEmpty then []
  else [(.scalar (ascii "appenders"), .sequence (appenders.map writeAppender))]

theorem field_appendersEntry (appenders : List LogAppenderDefine) (key : String) :
    field (.map (appendersEntry appenders)) key =
      if appenders ≠ [] ∧ key = "appenders"
      then some (some (.sequence (appenders.map writeAppender))) else some none := by
  cases appenders with
  | nil => rfl
  | cons a appenders =>
      have hentries : appendersEntry (a :: appenders) =
          [(.scalar (ascii "appenders"), .sequence ((a :: appenders).map writeAppender))] := rfl
      rw [hentries, field_cons, field_nil]
      simp only [Node.Scalar, ascii_inj, ne_eq, reduceCtorEq, not_false_eq_true, true_and,
        eq_comm]

theorem field_writeDefine (d : LogDefine) (key : String) :
    field (writeDefine d) key =
      if key = "name" then some (some (.scalar d.name))
      else field (.map (levelEntry d.level ++
        (formatterEntry d.formatter ++ appendersEntry d.appenders))) key := by
  have hnode : writeDefine d = .map (entry "name" d.name ::
      (levelEntry d.level ++ (formatterEntry d.formatter ++ appendersEntry d.appenders))) := by
    rw [← List.append_assoc]
    rfl
  rw [hnode, field_entry]
  simp only [eq_comm]

theorem mapM_some {α β : Type} {f : α → Option β} {g : α → β} {l : List α}
    (h : ∀ a ∈ l, f a = some (g a)) : l.mapM f = some (l.map g) := by
  induction l with
  | nil => rfl
  | cons a l ih =>
      rw [List.mapM_cons, h a List.mem_cons_self, ih fun a ha => h a (List.mem_cons_of_mem _ ha)]
      rfl

/-- A loop over the indices of a sequence is one over its items. -/
theorem map_item_range (items : List Node) :
    (List.range items.length).map (item (.sequence items)) = items.map some := by
  refine List.ext_getElem (by simp) fun i hleft hright => ?_
  rw [List.length_map] at hright
  simp [item, hright]

theorem readAppenders_writeDefine
    (hstring : ∀ text, yaml.asString (.scalar text) = some text)
    {d : LogDefine} (h : d.Saveable) :
    readAppenders yaml (writeDefine d) =
      some (d.appenders.map LogAppenderDefine.withoutLevel) := by
  have hfield : field (writeDefine d) "appenders" =
      if d.appenders ≠ [] then some (some (.sequence (d.appenders.map writeAppender)))
      else some none := by
    rw [field_writeDefine, if_neg (by decide), field_levelEntry, if_neg (by simp),
      field_formatterEntry, if_neg (by simp), field_appendersEntry]
    simp
  rw [readAppenders, hfield]
  split
  · have hread : (List.range (size (.sequence (d.appenders.map writeAppender)))).mapM
        (fun x => readItem yaml (item (.sequence (d.appenders.map writeAppender)) x)) =
          some (d.appenders.map fun a => some a.withoutLevel) := by
      calc _ = ((List.range (d.appenders.map writeAppender).length).map
                (item (.sequence (d.appenders.map writeAppender)))).mapM (readItem yaml) := by
              rw [List.mapM_map]
              rfl
        _ = ((d.appenders.map writeAppender).map some).mapM (readItem yaml) := by
              rw [map_item_range]
        _ = d.appenders.mapM fun a => readAppender yaml (writeAppender a) := by
              rw [List.mapM_map, List.mapM_map]
              rfl
        _ = _ := mapM_some fun a ha => readAppender_writeAppender hstring (h a ha)
    simp only [Option.bind_eq_bind, Option.bind_some, hread]
    simp [List.filterMap_map]
  · rename_i hempty
    rw [not_not.mp hempty]
    rfl

theorem readDefine_writeDefine
    (hstring : ∀ text, yaml.asString (.scalar text) = some text)
    {d : LogDefine} (h : d.Saveable) :
    readDefine yaml (writeDefine d) = some d.withoutLevels := by
  have hlevel : text yaml (writeDefine d) "level" [] =
      some (if d.level ≠ .UNKONW then d.level.ToString else []) := by
    refine text_of_field hstring [] ?_
    rw [field_writeDefine, if_neg (by decide), field_levelEntry, field_formatterEntry,
      field_appendersEntry]
    simp
  have hformatter : text yaml (writeDefine d) "formatter" [] = some d.formatter := by
    refine text_formatter hstring _ _ (field_writeDefine d "formatter") ?_
    rw [field_appendersEntry, if_neg (by simp)]
  have hread : LogLevel.FromString
      (if d.level ≠ .UNKONW then d.level.ToString else []) =
      d.level := by
    split
    · exact d.level.fromString_toString
    · rename_i hunknown
      rw [LogLevel.fromString_nil, not_not.mp hunknown]
  rw [readDefine, field_writeDefine, if_pos rfl]
  simp only [Option.bind_eq_bind, Option.bind_some, hstring, hlevel, hformatter, hread,
    readAppenders_writeDefine hstring h]
  rfl

/-! ## Sets -/

/-- Loading what has been emitted for a node gives the node. -/
def LoadsBack (yaml : Yaml) (node : Node) : Prop := yaml.load (yaml.emit node) = some node

theorem fromString_toString (hstring : ∀ text, yaml.asString (.scalar text) = some text)
    {d : LogDefine} (h : d.Saveable) (hload : LoadsBack yaml (writeDefine d)) :
    fromString yaml (toString yaml d) = some d.withoutLevels := by
  rw [fromString, toString, hload, Option.bind_some]
  exact readDefine_writeDefine hstring h

theorem size_sequenceOf (items : List Node) : size (sequenceOf items) = items.length := by
  cases items <;> rfl

/-- The loop over the items of a set: each is emitted, and cast from that text. -/
theorem map_item_sequenceOf {T : Type} (cast : Bytes → T) (items : List Node) :
    ((List.range items.length).map fun i =>
        cast (yaml.emit ((item (sequenceOf items) i).getD .null))) =
      items.map fun node => cast (yaml.emit node) := by
  cases items with
  | nil => rfl
  | cons head items =>
      have hitems := congrArg (List.map fun node => cast (yaml.emit (node.getD .null)))
        (map_item_range (head :: items))
      rwa [List.map_map, List.map_map] at hitems

/-- The loop of a cast to a set, over what the items are cast to. -/
theorem foldlM_insert {T R : Type} [LinearOrder R] {rank : T → R} {read : Nat → Option T}
    {indices : List Nat} {values : List T} (h : indices.map read = values.map some)
    (set : RankedMap rank Unit) :
    (indices.foldlM (fun set i => do
        let x ← read i
        some (set.insert x ())) set) =
      some (values.foldl (fun set x => set.insert x ()) set) := by
  induction indices generalizing values set with
  | nil =>
      rw [List.map_nil, eq_comm, List.map_eq_nil_iff] at h
      rw [h]
      rfl
  | cons i indices ih =>
      rw [List.map_cons, eq_comm, List.map_eq_cons_iff] at h
      obtain ⟨x, rest, rfl, hx, hrest⟩ := h
      rw [List.foldlM_cons, ← hx]
      exact ih hrest.symm (set.insert x ())

theorem setFromString_eq {T R : Type} [LinearOrder R] {rank : T → R} {cast : Bytes → Option T}
    {v : Bytes} {items : List Node} {values : List T} (hload : yaml.load v = some (sequenceOf items))
    (hcast : (items.map fun node => cast (yaml.emit node)) = values.map some) :
    setFromString yaml rank cast v =
      some (values.foldl (fun set x => set.insert x ()) .empty) := by
  rw [setFromString, hload, Option.bind_eq_bind, Option.bind_some, size_sequenceOf]
  refine foldlM_insert ?_ .empty
  rw [map_item_sequenceOf cast, hcast]

theorem setText_eq {s : LogDefineSet} (hload : ∀ d ∈ s.toList, LoadsBack yaml (writeDefine d)) :
    setText yaml s = some (yaml.emit (sequenceOf (s.toList.map writeDefine))) := by
  have hitems : (s.toList.mapM fun i => yaml.load (toString yaml i)) =
      some (s.toList.map writeDefine) := mapM_some hload
  rw [setText, setToString, hitems]
  rfl

theorem setOfText_setText (hstring : ∀ text, yaml.asString (.scalar text) = some text)
    {s : LogDefineSet} (h : ∀ d ∈ s.toList, d.Saveable)
    (hload : ∀ d ∈ s.toList, LoadsBack yaml (writeDefine d))
    (hset : LoadsBack yaml (sequenceOf (s.toList.map writeDefine))) :
    ∃ read, (setText yaml s).bind (setOfText yaml) = some read ∧
      read.toList = s.toList.map LogDefine.withoutLevels := by
  have hcast : ((s.toList.map writeDefine).map fun node => fromString yaml (yaml.emit node)) =
      (s.toList.map LogDefine.withoutLevels).map some := by
    rw [List.map_map, List.map_map]
    exact List.map_congr_left fun d hd => fromString_toString hstring (h d hd) (hload d hd)
  have hsorted : (s.toList.map LogDefine.withoutLevels).Pairwise fun first second =>
      first.rank < second.rank := by
    -- the order is by name, which is kept
    rw [List.pairwise_map]
    exact List.pairwise_map.mpr s.sorted
  rw [setText_eq hload, Option.bind_some, setOfText, setFromString_eq hset hcast]
  refine ⟨_, rfl, ?_⟩
  rw [LogDefineSet.toList, RankedMap.foldl_insert () _ hsorted fun entry hentry => by
    cases hentry]
  rw [RankedMap.empty, List.nil_append, List.map_map]
  exact List.map_id _

theorem eq_iff_toList {s t : LogDefineSet} : s = t ↔ s.toList = t.toList := by
  constructor
  · exact congrArg LogDefineSet.toList
  · intro h
    obtain ⟨entries, hs⟩ := s
    obtain ⟨others, ht⟩ := t
    have hentries : entries = others := List.map_injective_iff.mpr
      (fun a b hab => Prod.ext hab rfl) h
    subst hentries
    rfl

/-- A definition is read back as it was, and so is a set, if and only if no appender has a
level. -/
theorem saved_iff (hstring : ∀ text, yaml.asString (.scalar text) = some text)
    {d : LogDefine} (hd : d.Saveable) (hdefine : LoadsBack yaml (writeDefine d))
    {s : LogDefineSet} (hs : ∀ d ∈ s.toList, d.Saveable)
    (hdefines : ∀ d ∈ s.toList, LoadsBack yaml (writeDefine d))
    (hset : LoadsBack yaml (sequenceOf (s.toList.map writeDefine))) :
    (fromString yaml (toString yaml d) = some d ↔ d.LevelFree) ∧
      ((setText yaml s).bind (setOfText yaml) = some s ↔ ∀ d ∈ s.toList, d.LevelFree) := by
  constructor
  · rw [fromString_toString hstring hd hdefine, Option.some_inj, d.withoutLevels_eq_iff]
  · obtain ⟨read, hread, hlist⟩ := setOfText_setText hstring hs hdefines hset
    rw [hread, Option.some_inj, eq_iff_toList, hlist, map_eq_self_iff]
    exact forall₂_congr fun d _ => d.withoutLevels_eq_iff

end

/-- The texts of one definition, and of the set of it, as they are emitted. -/
def yamlOf (d : LogDefine) (one many : Bytes) : Yaml where
  emit node :=
    match node with
    | .map _ => one
    | _ => many
  load text :=
    if text = one then some (writeDefine d)
    else if text = many then some (sequenceOf [writeDefine d])
    else none
  asString node :=
    match node with
    | .scalar text => some text
    | _ => none

theorem loadsBack_yamlOf {d : LogDefine} {one many : Bytes} (h : many ≠ one) :
    LoadsBack (yamlOf d one many) (writeDefine d) ∧
      LoadsBack (yamlOf d one many) (sequenceOf [writeDefine d]) := by
  have hone : (yamlOf d one many).emit (writeDefine d) = one := rfl
  have hmany : (yamlOf d one many).emit (sequenceOf [writeDefine d]) = many := rfl
  rw [LoadsBack, LoadsBack, hone, hmany]
  exact ⟨if_pos rfl, (if_neg h).trans (if_pos rfl)⟩

def system : LogDefine :=
  ⟨ascii "system", .INFO, [], [⟨2, .UNKONW, [], ascii "system.log"⟩]⟩

def systemYaml : Yaml :=
  yamlOf system
    (ascii "name: system\nlevel: INFO\nappenders:\n  - type: FileLogAppender\n    file: system.log")
    (ascii ("- name: system\n  level: INFO\n  appenders:\n    - type: FileLogAppender\n" ++
      "      file: system.log"))

theorem saved_iff_system :
    (fromString systemYaml (toString systemYaml system) = some system ↔ system.LevelFree) ∧
      ((setText systemYaml (RankedMap.empty.insert system ())).bind (setOfText systemYaml) =
          some (RankedMap.empty.insert system ()) ↔
        ∀ d ∈ LogDefineSet.toList (RankedMap.empty.insert system ()), d.LevelFree) := by
  have hsystem : ∀ d ∈ LogDefineSet.toList (RankedMap.empty.insert system ()), d = system :=
    fun d hd => List.mem_singleton.mp hd
  have hsaveable : system.Saveable := fun a ha => .inr (by rw [List.mem_singleton.mp ha])
  obtain ⟨hdefine, hset⟩ : LoadsBack systemYaml (writeDefine system) ∧
      LoadsBack systemYaml (sequenceOf [writeDefine system]) := loadsBack_yamlOf (by decide)
  refine saved_iff (fun text => rfl) hsaveable hdefine ?_ ?_ hset
  · intro d hd
    rwa [hsystem d hd]
  · intro d hd
    rwa [hsystem d hd]

/-- An appender that logs errors alone is read back as one that logs everything. -/
def errors : LogDefine :=
  ⟨ascii "root", .UNKONW, [], [⟨1, .ERROR, [], []⟩]⟩

def errorsYaml : Yaml :=
  yamlOf errors
    (ascii "name: root\nappenders:\n  - type: StdoutLogAppender\n    level: ERROR")
    (ascii "- name: root\n  appenders:\n    - type: StdoutLogAppender\n      level: ERROR")

theorem level_not_read :
    errors.Saveable ∧ LoadsBack errorsYaml (writeDefine errors) ∧
      (∀ text, errorsYaml.asString (.scalar text) = some text) ∧
      fromString errorsYaml (toString errorsYaml errors) ≠ some errors := by
  refine ⟨?_, (loadsBack_yamlOf (by decide)).1, fun text => rfl, by decide⟩
  intro a ha
  rw [List.mem_singleton.mp ha]
  exact .inl ⟨rfl, rfl⟩

end Qslary.Log
