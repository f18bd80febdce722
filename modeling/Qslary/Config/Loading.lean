import Qslary.Config.Model

/-!
# What a document sets

A variable ends with the value of the last node, in pre-order, that stands under its
name and can be converted.  Names in lower case are reached by every document that
spells them; a name with an upper-case letter can be registered, but is never reached.
-/

namespace Qslary.Config

open Qslary.Foundation

/-! ## Nodes with their paths -/

mutual

/-- All nodes of a document in pre-order, with the keys that lead to them. -/
def Node.preorder : Node → List (List Bytes × Node)
  | .map entries => ([], .map entries) :: preorderEntries entries
  | .sequence items => [([], .sequence items)]
  | .scalar text => [([], .scalar text)]
  | .null => [([], .null)]

def preorderEntries : List (Node × Node) → List (List Bytes × Node)
  | [] => []
  | entry :: entries => preorderEntry entry ++ preorderEntries entries

def preorderEntry : Node × Node → List (List Bytes × Node)
  | (key, value) => value.preorder.map fun member => (key.Scalar :: member.1, member.2)

end

def dotted (keys : List Bytes) : Bytes := keys.foldl join []

theorem foldl_join {path : Bytes} (hpath : path ≠ []) (keys : List Bytes) :
    keys.foldl join path = [46].intercalate (path :: keys) := by
  induction keys generalizing path with
  | nil => simp [List.intercalate]
  | cons key keys ih =>
      have hne : path ++ 46 :: key ≠ [] := by simp
      rw [List.foldl_cons, join, if_neg hpath, ih hne]
      cases keys <;> simp [List.intercalate, List.intersperse]

/-- Empty keys in front leave no trace; every other key stands behind a dot, empty or not. -/
theorem dotted_eq (keys : List Bytes) :
    dotted keys = [46].intercalate (keys.dropWhile List.isEmpty) := by
  induction keys with
  | nil => rfl
  | cons key keys ih =>
      by_cases hkey : key = []
      · subst hkey
        exact ih
      · rw [List.dropWhile_cons_of_neg (by simpa using hkey), ← foldl_join hkey]
        rfl

theorem dotted_of_ne_nil {keys : List Bytes} (hkeys : ∀ key ∈ keys, key ≠ []) :
    dotted keys = [46].intercalate keys := by
  rw [dotted_eq]
  cases keys with
  | nil => rfl
  | cons key keys =>
      rw [List.dropWhile_cons_of_neg (by simpa using hkeys key List.mem_cons_self)]

/-- The nodes that a non-empty dotted path leads to, in pre-order. -/
def Node.nodesAt (root : Node) (name : Bytes) : List Node :=
  if name = [] then []
  else (root.preorder.filter fun member => dotted member.1 = name).map Prod.snd

/-- Every key of the document is over the alphabet of `listAllMember`. -/
def Node.KeysOver (root : Node) : Prop :=
  ∀ member ∈ root.preorder, ∀ key ∈ member.1, key.all isMemberByte = true

namespace ConfigBase

/-- No listener throws. -/
def Quiet (base : ConfigBase) : Prop :=
  ∀ cb ∈ base.var.mCbs, ∀ old new, cb.2 old new = true

def hold (base : ConfigBase) (v : base.T) : ConfigBase :=
  { base with var := { base.var with mVal := v } }

/-- The values that the nodes under a name convert to. -/
def converted (base : ConfigBase) (emit : Node → Bytes) (nodes : List Node) : List base.T :=
  nodes.filterMap fun node => base.fromStr (nodeText emit node)

end ConfigBase

section

variable {path name : Bytes}

theorem all_join (hpath : path.all isMemberByte = true) (key : Bytes) :
    (join path key).all isMemberByte = key.all isMemberByte := by
  unfold join
  split
  · rfl
  · rw [List.all_append, List.all_cons, hpath]
    rfl

theorem prefix_join (hpath : path ≠ []) (key : Bytes) : path <+: join path key := by
  rw [join, if_neg hpath]
  exact List.prefix_append _ _

theorem prefix_foldl (hpath : path ≠ []) (keys : List Bytes) : path <+: keys.foldl join path := by
  induction keys generalizing path with
  | nil => exact List.prefix_rfl
  | cons key keys ih =>
      have hjoin := prefix_join hpath key
      have hne : join path key ≠ [] := by
        intro hnil
        rw [hnil] at hjoin
        exact hpath (List.prefix_nil.mp hjoin)
      exact hjoin.trans (ih hne)

/-- Nothing below a path with another byte stands under a name over the alphabet. -/
theorem foldl_ne_of_all (hname : name.all isMemberByte = true)
    (hpath : path.all isMemberByte = false) (keys : List Bytes) : keys.foldl join path ≠ name := by
  have hne : path ≠ [] := by
    rintro rfl
    cases hpath
  rintro rfl
  obtain ⟨rest, hrest⟩ := prefix_foldl hne keys
  rw [← hrest, List.all_append, hpath] at hname
  cases hname

/-- The nodes of a list of members that stand under a name. -/
def under (name : Bytes) (members : List (Bytes × Node)) : List Node :=
  (members.filter fun member => member.1 = name).map Prod.snd

/-- The same of nodes with keys, below a path. -/
def below (name path : Bytes) (members : List (List Bytes × Node)) : List Node :=
  (members.filter fun member => member.1.foldl join path = name).map Prod.snd

theorem under_append (name : Bytes) (members more : List (Bytes × Node)) :
    under name (members ++ more) = under name members ++ under name more := by
  rw [under, List.filter_append, List.map_append]
  rfl

theorem below_append (name path : Bytes) (members more : List (List Bytes × Node)) :
    below name path (members ++ more) = below name path members ++ below name path more := by
  rw [below, List.filter_append, List.map_append]
  rfl

theorem below_preorderEntry (name path : Bytes) (key value : Node) :
    below name path (preorderEntry (key, value)) =
      below name (join path key.Scalar) value.preorder := by
  rw [preorderEntry, below, List.filter_map, List.map_map]
  rfl

theorem below_eq_nil (hname : name.all isMemberByte = true)
    (hpath : path.all isMemberByte = false) (members : List (List Bytes × Node)) :
    below name path members = [] := by
  rw [below, List.map_eq_nil_iff, List.filter_eq_nil_iff]
  intro member _ heq
  exact foldl_ne_of_all hname hpath member.1 (of_decide_eq_true heq)

theorem under_single (name path : Bytes) (node : Node) :
    under name [(path, node)] = below name path [([], node)] := by
  by_cases h : path = name
  · simp [under, below, h]
  · simp [under, below, h]

theorem under_leaf (hname : name.all isMemberByte = true) (path : Bytes) (node : Node) :
    under name (if path.all isMemberByte then [(path, node)] else []) =
      below name path [([], node)] := by
  cases hpath : path.all isMemberByte with
  | true => exact under_single name path node
  | false => exact (below_eq_nil hname hpath _).symm

mutual

/-- A name over the alphabet meets the same nodes in the list and in the document. -/
theorem under_listAllMember (hname : name.all isMemberByte = true) (path : Bytes) :
    ∀ root : Node, under name (listAllMember path root) = below name path root.preorder
  | .map entries => by
      have hentries := under_listEntries hname path entries
      rw [listAllMember, Node.preorder]
      cases hpath : path.all isMemberByte with
      | true =>
          show under name ([(path, .map entries)] ++ listEntries path entries) =
            below name path ([([], .map entries)] ++ preorderEntries entries)
          rw [under_append, below_append, under_single, hentries]
      | false => exact (below_eq_nil hname hpath _).symm
  | .sequence items => under_leaf hname path (.sequence items)
  | .scalar text => under_leaf hname path (.scalar text)
  | .null => under_leaf hname path .null

theorem under_listEntries (hname : name.all isMemberByte = true) (path : Bytes) :
    ∀ entries : List (Node × Node),
      under name (listEntries path entries) = below name path (preorderEntries entries)
  | [] => rfl
  | entry :: entries => by
      rw [listEntries, preorderEntries, under_append, below_append,
        under_listEntries hname path entries, under_listEntry hname path entry]

theorem under_listEntry (hname : name.all isMemberByte = true) (path : Bytes) :
    ∀ entry : Node × Node,
      under name (listEntry path entry) = below name path (preorderEntry entry)
  | (key, value) => by
      rw [below_preorderEntry, listEntry]
      exact under_listAllMember hname (join path key.Scalar) value

end

theorem all_of_mem_leaf {node : Node} : ∀ member ∈
    (if path.all isMemberByte then [(path, node)] else []), member.1.all isMemberByte = true := by
  intro member hmem
  split at hmem
  · rename_i hpath
    obtain rfl := List.mem_singleton.mp hmem
    exact hpath
  · cases hmem

mutual

theorem all_of_mem_listAllMember (path : Bytes) :
    ∀ root : Node, ∀ member ∈ listAllMember path root, member.1.all isMemberByte = true
  | .map entries => by
      intro member hmem
      rw [listAllMember] at hmem
      split at hmem
      · rename_i hpath
        rcases List.mem_cons.mp hmem with rfl | hmem
        · exact hpath
        · exact all_of_mem_listEntries path entries member hmem
      · cases hmem
  | .sequence items => all_of_mem_leaf
  | .scalar text => all_of_mem_leaf
  | .null => all_of_mem_leaf

theorem all_of_mem_listEntries (path : Bytes) :
    ∀ entries : List (Node × Node), ∀ member ∈ listEntries path entries,
      member.1.all isMemberByte = true
  | [] => fun _ hmem => by cases hmem
  | entry :: entries => by
      intro member hmem
      rw [listEntries] at hmem
      rcases List.mem_append.mp hmem with hmem | hmem
      · exact all_of_mem_listEntry path entry member hmem
      · exact all_of_mem_listEntries path entries member hmem

theorem all_of_mem_listEntry (path : Bytes) :
    ∀ entry : Node × Node, ∀ member ∈ listEntry path entry, member.1.all isMemberByte = true
  | (key, value) => by
      rw [listEntry]
      exact all_of_mem_listAllMember (join path key.Scalar) value

end

end

/-! ## The loop -/

theorem tolower_of_member {byte : UInt8} (h : isMemberByte byte = true) : tolower byte = byte := by
  rw [tolower, if_neg]
  rintro ⟨hlow, hhigh⟩
  simp only [isMemberByte, Bool.or_eq_true, Bool.and_eq_true, decide_eq_true_eq,
    UInt8.le_iff_toNat_le, ← UInt8.toNat_inj] at h hlow hhigh
  simp only [UInt8.reduceToNat] at h hlow hhigh
  omega

theorem map_tolower {path : Bytes} (h : path.all isMemberByte = true) :
    path.map tolower = path := by
  rw [List.map_congr_left fun byte hbyte => tolower_of_member (List.all_eq_true.mp h byte hbyte)]
  exact List.map_id path

namespace ConfigBase

variable {base : ConfigBase}

/-- A variable whose listeners return takes the value that its text converts to. -/
theorem formString_eq (h : base.Quiet) (text : Bytes) :
    (base.formString text).1 = (base.fromStr text).elim base base.hold := by
  obtain ⟨T, decEq, fromStr, var⟩ := base
  have hall : ∀ v, var.mCbs.all (fun cb => cb.2 var.mVal v) = true := by
    intro v
    exact List.all_eq_true.mpr fun cb hcb => h cb hcb _ _
  simp only [formString, ConfigVar.formString]
  cases fromStr text with
  | none => rfl
  | some v =>
      simp only [Option.bind_some, ConfigVar.setValue, hall, if_true, Option.elim_some, hold]
      split
      · rename_i hstored
        split at hstored
        · cases hstored
          rename_i heq
          simp only [heq]
        · cases hstored
          rfl
      · rename_i hstored
        split at hstored <;> cases hstored

theorem converted_cons (base : ConfigBase) (emit : Node → Bytes) (node : Node)
    (nodes : List Node) :
    base.converted emit (node :: nodes) =
      (base.fromStr (nodeText emit node)).toList ++ base.converted emit nodes := by
  rw [converted, List.filterMap_cons]
  cases base.fromStr (nodeText emit node) with
  | none => rfl
  | some v => rfl

theorem foldl_formString (h : base.Quiet) (emit : Node → Bytes) (nodes : List Node) :
    nodes.foldl (fun base node => (base.formString (nodeText emit node)).1) base =
      (base.converted emit nodes).getLast?.elim base base.hold := by
  induction nodes generalizing base with
  | nil => rfl
  | cons node nodes ih =>
      rw [List.foldl_cons, formString_eq h, converted_cons]
      cases base.fromStr (nodeText emit node) with
      | none => exact ih h
      | some v =>
          have hquiet : (base.hold v).Quiet := h
          refine (ih hquiet).trans ?_
          rw [Option.toList_some, List.singleton_append, List.getLast?_cons]
          show (base.converted emit nodes).getLast?.elim (base.hold v) base.hold = _
          cases (base.converted emit nodes).getLast? with
          | none => rfl
          | some w => rfl

end ConfigBase

section

variable {emit : Node → Bytes} {datas : ConfigVarMap} {name : Bytes}

theorem loadMember_eq {member : Bytes × Node} (hall : member.1.all isMemberByte = true)
    (hname : name ≠ []) :
    loadMember emit datas member name =
      (datas name).map fun base => (under name [member]).foldl
        (fun base node => (base.formString (nodeText emit node)).1) base := by
  obtain ⟨path, node⟩ := member
  rw [loadMember]
  by_cases hpath : path = name
  · subst hpath
    rw [if_neg hname]
    simp only [map_tolower hall]
    cases hdatas : datas path with
    | none => simp [hdatas]
    | some base => simp [under]
  · have hunder : under name [(path, node)] = [] := by simp [under, hpath]
    rw [hunder]
    simp only [List.foldl_nil, Option.map_id']
    split
    · rfl
    · rw [map_tolower hall]
      cases datas path with
      | none => rfl
      | some base => exact Function.update_of_ne (fun heq => hpath heq.symm) _ _

theorem foldl_loadMember {members : List (Bytes × Node)}
    (hall : ∀ member ∈ members, member.1.all isMemberByte = true) (hname : name ≠ []) :
    members.foldl (loadMember emit) datas name =
      (datas name).map fun base => (under name members).foldl
        (fun base node => (base.formString (nodeText emit node)).1) base := by
  induction members generalizing datas with
  | nil => simp [under]
  | cons member members ih =>
      have hrest := fun more hmore => hall more (List.mem_cons_of_mem member hmore)
      have hunder : under name (member :: members) = under name [member] ++ under name members :=
        under_append name [member] members
      rw [List.foldl_cons, ih hrest, loadMember_eq (hall member List.mem_cons_self) hname,
        Option.map_map, hunder]
      congr 1
      funext base
      exact List.foldl_append.symm

theorem foldl_loadMember_nil (members : List (Bytes × Node))
    (hall : ∀ member ∈ members, member.1.all isMemberByte = true) :
    members.foldl (loadMember emit) datas [] = datas [] := by
  induction members generalizing datas with
  | nil => rfl
  | cons member members ih =>
      rw [List.foldl_cons, ih fun more hmore => hall more (List.mem_cons_of_mem member hmore)]
      rw [loadMember]
      split
      · rfl
      · rename_i hne
        rw [map_tolower (hall member List.mem_cons_self)]
        cases hdatas : datas member.1 with
        | none => simp only [hdatas]
        | some base =>
            simp only [hdatas]
            exact Function.update_of_ne (fun heq => hne heq.symm) _ _

theorem nodesAt_eq_below (hname : name ≠ []) (root : Node) :
    root.nodesAt name = below name [] root.preorder := if_neg hname

/-- With every key over the alphabet no other name is spelled. -/
theorem nodesAt_eq_nil {root : Node} (hkeys : root.KeysOver)
    (hname : name.all isMemberByte = false) : root.nodesAt name = [] := by
  have hne : name ≠ [] := by
    rintro rfl
    cases hname
  have hdotted : ∀ keys : List Bytes, (∀ key ∈ keys, key.all isMemberByte = true) →
      ∀ path : Bytes, path.all isMemberByte = true →
        (keys.foldl join path).all isMemberByte = true := by
    intro keys
    induction keys with
    | nil => exact fun _ _ hpath => hpath
    | cons key keys ih =>
        intro hkeys path hpath
        refine ih (fun more hmore => hkeys more (List.mem_cons_of_mem key hmore)) _ ?_
        rw [all_join hpath, hkeys key List.mem_cons_self]
  rw [nodesAt_eq_below hne, below, List.map_eq_nil_iff, List.filter_eq_nil_iff]
  intro member hmem heq
  have hall := hdotted member.1 (hkeys member hmem) [] rfl
  rw [of_decide_eq_true heq, hname] at hall
  cases hall

theorem loadFromYaml_eq (root : Node) (hname : name.all isMemberByte = true ∨ root.KeysOver)
    (hquiet : ∀ base, datas name = some base → base.Quiet) :
    loadFromYaml emit datas root name =
      (datas name).map fun base =>
        (base.converted emit (root.nodesAt name)).getLast?.elim base base.hold := by
  have hall := all_of_mem_listAllMember [] root
  by_cases hne : name = []
  · subst hne
    rw [loadFromYaml, foldl_loadMember_nil _ hall]
    cases datas [] with
    | none => rfl
    | some base => rfl
  have hunder : under name (listAllMember [] root) = root.nodesAt name := by
    cases hover : name.all isMemberByte with
    | true => rw [under_listAllMember hover, nodesAt_eq_below hne]
    | false =>
        have hkeys := hname.resolve_left fun htrue => by
          rw [hover] at htrue
          cases htrue
        rw [nodesAt_eq_nil hkeys hover, under, List.map_eq_nil_iff, List.filter_eq_nil_iff]
        intro member hmem heq
        have hmember := hall member hmem
        rw [of_decide_eq_true heq, hover] at hmember
        cases hmember
  rw [loadFromYaml, foldl_loadMember hall hne, hunder]
  cases hdatas : datas name with
  | none => rfl
  | some base => exact congrArg some (ConfigBase.foldl_formString (hquiet base hdatas) emit _)

end

/-- A variable that is on or off. -/
def flag (name : Bytes) : ConfigBase where
  T := Bool
  decEq := inferInstance
  fromStr text :=
    if text = ascii "on" then some true else if text = ascii "off" then some false else none
  var := .new name false

theorem quiet_flag (name : Bytes) : (flag name).Quiet := nofun

/-- The document that has one entry, under the name. -/
def entry (name : Bytes) : Node := .map [(.scalar name, .scalar (ascii "on"))]

/--
Each variable holds what the last node under its name that converts is converted to, or
what it held before.
-/
theorem loadFromYaml_sets_last (emit : Node → Bytes) (datas : ConfigVarMap) (root : Node)
    (hkeys : root.KeysOver) (hquiet : ∀ name base, datas name = some base → base.Quiet)
    (name : Bytes) :
    loadFromYaml emit datas root name =
      (datas name).map fun base =>
        (base.converted emit (root.nodesAt name)).getLast?.elim base base.hold :=
  loadFromYaml_eq root (.inr hkeys) (hquiet name)

/-- Three nodes under `a.b`, the last below an empty key and neither on nor off. -/
def onAndOff : Node :=
  .map [(.scalar (ascii "a"), .map [(.scalar (ascii "b"), .scalar (ascii "off"))]),
    (.scalar (ascii "a.b"), .scalar (ascii "on")),
    (.scalar [], .map [(.scalar (ascii "a.b"), .scalar (ascii "maybe"))])]

theorem loadFromYaml_sample :
    loadFromYaml (fun _ => []) (fun name => if name = ascii "a.b" then some (flag name) else none)
      onAndOff (ascii "a.b") = some ((flag (ascii "a.b")).hold true) := by
  have hkeys : onAndOff.KeysOver := by
    unfold Node.KeysOver
    decide
  refine (loadFromYaml_sets_last _ _ _ hkeys ?_ _).trans ?_
  · intro name base hbase
    obtain ⟨-, hflag⟩ := Option.ite_none_right_eq_some.mp hbase
    cases hflag
    exact quiet_flag name
  · have hnodes : onAndOff.nodesAt (ascii "a.b") =
        [.scalar (ascii "off"), .scalar (ascii "on"), .scalar (ascii "maybe")] := by
      rfl
    rw [hnodes]
    rfl

/-! ## Names that can be configured -/

/-- A registered variable takes the value of the node that its name leads to. -/
def Configurable (name : Bytes) : Prop :=
  ∀ (emit : Node → Bytes) (datas datas' : ConfigVarMap) (default base : ConfigBase) (root : Node)
    (v : base.T), lookup datas name default = some datas' → datas' name = some base →
    base.Quiet → (base.converted emit (root.nodesAt name)).getLast? = some v →
    loadFromYaml emit datas' root name = some (base.hold v)

def isUpper (byte : UInt8) : Bool := 65 ≤ byte && byte ≤ 90

theorem isMemberByte_of_isNameByte {byte : UInt8} (h : isNameByte byte = true) :
    isMemberByte byte = !isUpper byte := by
  rw [Bool.eq_iff_iff, Bool.not_eq_true']
  simp only [isNameByte, isMemberByte, isUpper, Bool.or_eq_true, Bool.and_eq_true,
    Bool.and_eq_false_iff, decide_eq_true_eq, decide_eq_false_iff_not, UInt8.le_iff_toNat_le,
    ← UInt8.toNat_inj, UInt8.reduceToNat] at h ⊢
  omega

theorem all_isMemberByte_iff {name : Bytes} (hname : name.all isNameByte = true) :
    name.all isMemberByte = true ↔ ∀ byte ∈ name, isUpper byte = false := by
  rw [List.all_eq_true]
  refine forall₂_congr fun byte hbyte => ?_
  rw [isMemberByte_of_isNameByte (List.all_eq_true.mp hname byte hbyte), Bool.not_eq_true']

theorem configurable_of_all {name : Bytes} (hname : name.all isMemberByte = true) :
    Configurable name := by
  intro emit datas datas' default base root v _ hbase hquiet hlast
  rw [loadFromYaml_eq root (.inl hname), hbase]
  · rw [Option.map_some, hlast]
    rfl
  · intro other hother
    obtain rfl := Option.some.inj (hbase.symm.trans hother)
    exact hquiet

theorem not_configurable {name : Bytes} (hne : name ≠ []) (hname : name.all isNameByte = true)
    (hupper : name.all isMemberByte = false) : ¬ Configurable name := by
  intro h
  have hlookup : lookup (fun _ => none) name (flag name) =
      some (Function.update (fun _ => none) name (some (flag name))) := by
    rw [lookup, hname]
    rfl
  have hnodes : (entry name).nodesAt name = [.scalar (ascii "on")] := by
    rw [nodesAt_eq_below hne]
    simp [below, entry, Node.preorder, preorderEntries, preorderEntry, Node.Scalar, join,
      Ne.symm hne]
  have hload := h (fun _ => []) _ _ (flag name) (flag name) (entry name) true hlookup
    (Function.update_self _ _ _) (quiet_flag name) (by rw [hnodes]; rfl)
  have hmembers : listAllMember [] (entry name) = [([], entry name)] := by
    simp [entry, listAllMember, listEntries, listEntry, Node.Scalar, join, hupper]
  rw [loadFromYaml, hmembers, List.foldl_cons, List.foldl_nil, loadMember, if_pos rfl,
    Function.update_self] at hload
  simp [flag, ConfigBase.hold, ConfigVar.new] at hload

/-- The names in which no letter is in upper case. -/
theorem configurable_iff (name : Bytes) (hne : name ≠ []) (hname : name.all isNameByte = true) :
    Configurable name ↔ ∀ byte ∈ name, isUpper byte = false := by
  rw [← all_isMemberByte_iff hname]
  refine ⟨fun h => ?_, configurable_of_all⟩
  by_contra hupper
  exact not_configurable hne hname (Bool.not_eq_true _ ▸ hupper) h

theorem configurable_sample : Configurable (ascii "tcp.connect.timeout") :=
  (configurable_iff _ (by decide) rfl).mpr (by decide +kernel)

/-- `lookup` takes the name, and `listAllMember` refuses the path. -/
theorem upper_not_configurable :
    (ascii "Port").all isNameByte = true ∧ ¬ Configurable (ascii "Port") :=
  ⟨by decide, not_configurable (by decide) (by decide) (by decide)⟩

end Qslary.Config
