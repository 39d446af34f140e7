import BuilderApi.Proofs.Table.Declared

/-!
# The entries of the catalog are sound

Whatever a schema puts into it, each constructor of the catalog gives the value of a sound entry:
one that is well formed under every name, and that refers to nothing but the companions listed below
and the functions of the view module. There is one lemma for each constructor, in the order of the
constructors. A lemma names the members that the constructor writes and what each of them has to be;
the texts that come from a schema stand where any text may, so nothing is asked of them.
-/

namespace BuilderApi

namespace Catalog

/-! ### Companions -/

/-- The entries that other entries of the catalog refer to. -/
def companions : List String :=
  ["mark", "layer", "hconcat", "vconcat", "_repeat", "_facet", "lookupData", "field", "aggregate",
    "joinaggregate", "window"]

/-- The value declares a sound entry of the catalog. -/
abbrev IsEntry (value : Json) : Prop := Declares companions viewModule value

/-- A member of such an entry. -/
abbrev IsMember (member : String × Json) : Prop := Declaration.Takes companions viewModule member

/-- A member of an extension. -/
abbrev IsExtMember (member : String × Json) : Prop :=
  Declaration.extension.Takes (ExtensionDecl.WellFormed Json.WrapsAlone) member

/-- An entry with description and section is read if its other members are. -/
theorem isEntry_described {desc doc : String} {more : Fields Json}
    (hnames : ("desc" :: "doc" :: Fields.names more).Nodup) (h : ∀ member ∈ more, IsMember member) :
    IsEntry (described desc doc more) :=
  declares_object hnames <| List.forall_mem_cons.2 ⟨Declaration.takes_text (by decide) (some desc),
    List.forall_mem_cons.2 ⟨Declaration.takes_text (by decide) (some doc), h⟩⟩

theorem isMember_def (definition : String) : IsMember ("def", .str definition) :=
  Declaration.takes_text (by decide) (some definition)

theorem isMember_src (source : String) : IsMember ("src", .str source) :=
  Declaration.takes_text (by decide) (some source)

/-- An extension of one argument is read if its other members are. -/
theorem extends_argExt {name arg desc : String} {more : Fields Json}
    (hnames : ("arg" :: Fields.names more ++ ["desc"]).Nodup)
    (h : ∀ member ∈ more, IsExtMember member) :
    Extends (argExt name arg more desc).2 := by
  refine extends_object (by simpa [Fields.names] using hnames) ?_
  have harg : IsExtMember ("arg", .strs [arg]) := ExtensionDecl.takes_arg rfl (Nat.le_refl 1)
  have hdesc : IsExtMember ("desc", .str desc) :=
    ExtensionDecl.takes_free rfl rfl fun _ => ⟨rfl, rfl⟩
  simp only [List.cons_append, List.forall_mem_cons, List.forall_mem_append]
  exact ⟨harg, h, hdesc, List.forall_mem_nil _⟩

/-- An extension of one argument and nothing more. -/
theorem extends_argExt_nil (name arg desc : String) : Extends (argExt name arg [] desc).2 :=
  extends_argExt (by decide) (List.forall_mem_nil _)

/-- What is true of the members of two objects is true of the one put into the other. -/
theorem forall_mem_extend {p : String × Json → Prop} {members more : Fields Json}
    (h : ∀ member ∈ members, p member) (hmore : ∀ member ∈ more, p member) :
    ∀ member ∈ extend members more, p member :=
  fun member hmember => (Fields.mem_putAll hmember).elim (h member) (hmore member)

/-! ### Transformations -/

/-- Transforms are read, whatever their name and definition. -/
theorem isEntry_transform (name definition : String) {args : List Json} (h : Binds (array args)) :
    IsEntry (transform name definition args) := by
  refine isEntry_described (by simp [Fields.names]) ?_
  simp only [List.forall_mem_cons]
  exact ⟨isMember_def definition, Declaration.takes_arg h, List.forall_mem_nil _⟩

theorem isEntry_groupby : IsEntry groupby := by
  refine isEntry_described (by simp [Fields.names]) ?_
  simp only [List.forall_mem_cons]
  refine ⟨Declaration.takes_arg (binds_of_parse rfl rfl), Declaration.takes_pass ?_,
    List.forall_mem_nil _⟩
  simp only [List.forall_mem_cons]
  refine ⟨?_, ?_, ?_, ?_, List.forall_mem_nil _⟩ <;> exact passes_of_read rfl rfl (by decide)

/-- All transforms are read. -/
theorem isEntry_of_mem_transforms : ∀ entry ∈ transforms, IsEntry entry.2 := by
  simp only [transforms, List.forall_mem_cons]
  refine ⟨?_, ?_, ?_, ?_, ?_, ?_, ?_, ?_, ?_, ?_, ?_, ?_, ?_, ?_, isEntry_groupby,
    List.forall_mem_nil _⟩ <;>
    exact isEntry_transform _ _ (binds_of_parse rfl rfl)

/-! ### Operators -/

theorem extends_orderExt (arg subject : String) : Extends (orderExt arg subject).2 :=
  extends_argExt_nil _ _ _

theorem extends_of_mem_logicExt : ∀ member ∈ logicExt, Extends member.2 := by
  simp only [logicExt, List.forall_mem_cons]
  refine ⟨?_, ?_, ?_, ?_, ?_, ?_, ?_, ?_, List.forall_mem_nil _⟩ <;> exact extends_argExt_nil _ _ _

/-- Aggregations are read, with each of their lists of arguments. -/
theorem isEntry_aggregateOp (op : String) {args : List String} (h : Binds (.strs args)) :
    IsEntry (aggregateOp op args) := by
  refine isEntry_described (by simp [Fields.names]) ?_
  simp only [List.forall_mem_cons]
  refine ⟨isMember_def _, Declaration.takes_set _ _, Declaration.takes_arg h,
    Declaration.takes_ext ?_, List.forall_mem_nil _⟩
  exact List.forall_mem_singleton.2 (extends_orderExt _ _)

theorem isEntry_windowOp (op : String) {args : List String} (h : Binds (.strs args)) :
    IsEntry (windowOp op args) := by
  refine isEntry_described (by simp [Fields.names]) ?_
  simp only [List.forall_mem_cons]
  exact ⟨isMember_def _, Declaration.takes_set _ _, Declaration.takes_arg h, List.forall_mem_nil _⟩

theorem isEntry_timeUnitOp (unit : String) {args : List String} (h : Binds (.strs args)) :
    IsEntry (timeUnitOp unit args) := by
  refine isEntry_described (by simp [Fields.names]) ?_
  simp only [List.forall_mem_cons]
  exact ⟨isMember_def _, Declaration.takes_set _ _, Declaration.takes_arg h,
    Declaration.takes_ext extends_of_mem_logicExt, List.forall_mem_nil _⟩

/-- All operations are read. -/
theorem isEntry_of_mem_operations : ∀ entry ∈ operations, IsEntry entry.2 := by
  have haggregate :
      ∀ op ∈ aggregateOps, (parseBindings "" ((op.2 ++ ["as"]).map .sigil)).isOk = true := by
    decide
  have hwindow :
      ∀ op ∈ windowOps, (parseBindings "" ((op.2 ++ ["as"]).map .sigil)).isOk = true := by
    decide
  simp only [operations, List.forall_mem_append, List.forall_mem_map]
  exact ⟨⟨fun op hop => isEntry_aggregateOp _ (binds_strs (haggregate op hop)),
    fun op hop => isEntry_windowOp _ (binds_strs (hwindow op hop))⟩,
    fun op _ => isEntry_timeUnitOp _ (binds_of_parse rfl rfl)⟩

theorem isEntry_logicOp (name : String) {arg : String} (h : Binds (.strs [arg])) :
    IsEntry (logicOp name arg) := by
  refine isEntry_described (by simp [Fields.names]) ?_
  exact List.forall_mem_singleton.2 (Declaration.takes_arg h)

/-! ### References -/

theorem isEntry_field : IsEntry field := by
  refine isEntry_described (by simp [Fields.names]) ?_
  simp only [List.forall_mem_cons]
  refine ⟨Declaration.takes_arg (binds_of_parse rfl rfl), Declaration.takes_ext ?_,
    List.forall_mem_nil _⟩
  refine forall_mem_extend ?_ extends_of_mem_logicExt
  simp only [List.forall_mem_cons]
  exact ⟨extends_orderExt _ _, extends_argExt_nil _ _ _, List.forall_mem_nil _⟩

/-- The fields of each type are read. -/
theorem isEntry_fieldOfType (type : String) : IsEntry (fieldOfType type) := by
  refine isEntry_described (by simp [Fields.names]) ?_
  simp only [List.forall_mem_cons]
  exact ⟨Declaration.takes_ctr rfl rfl (by decide), Declaration.takes_set _ _,
    List.forall_mem_nil _⟩

theorem isEntry_encoding : IsEntry encoding := by
  refine isEntry_described (by simp [Fields.names]) ?_
  simp only [List.forall_mem_cons]
  refine ⟨Declaration.takes_arg (binds_of_parse rfl rfl), Declaration.takes_ext ?_,
    List.forall_mem_nil _⟩
  exact List.forall_mem_singleton.2 (extends_argExt_nil _ _ _)

theorem isEntry_reference (desc : String) (definition : Option String) {arg : String}
    (h : Binds (.strs [arg])) :
    IsEntry (reference desc definition arg) := by
  refine isEntry_described (by simp [Fields.names]) ?_
  simp only [List.forall_mem_cons]
  exact ⟨Declaration.takes_text (by decide) definition, Declaration.takes_arg h,
    List.forall_mem_nil _⟩

/-! ### Selections -/

/-- The selections of each type are read. -/
theorem isEntry_selection (type : String) : IsEntry (selection type) := by
  refine isEntry_described (by simp [Fields.names]) ?_
  simp only [List.forall_mem_cons]
  exact ⟨isMember_def _, Declaration.takes_set _ _, Declaration.takes_arg (binds_of_parse rfl rfl),
    Declaration.takes_key (keys_of_parse rfl rfl), List.forall_mem_nil _⟩

theorem isEntry_inputElement (definition input : String) {args : Option (List String)}
    (h : Binds (optionalStrs args)) : IsEntry (inputElement definition input args) := by
  refine isEntry_described (by simp [Fields.names]) ?_
  simp only [List.forall_mem_cons]
  exact ⟨isMember_def _, Declaration.takes_set _ _, Declaration.takes_arg h, List.forall_mem_nil _⟩

/-! ### Encoding channels -/

theorem extends_fieldExt (name type : String) : Extends (fieldExt name type).2 :=
  extends_argExt (by simp [Fields.names])
    (List.forall_mem_singleton.2 (ExtensionDecl.takes_free rfl rfl fun _ => ⟨rfl, rfl⟩))

theorem extends_timeUnitExt (op : String × String) : Extends (timeUnitExt op).2 :=
  extends_argExt (by simp [Fields.names])
    (List.forall_mem_singleton.2 (ExtensionDecl.takes_free rfl rfl fun _ => ⟨rfl, rfl⟩))

theorem extends_aggregateExt (op : String × List String) : Extends (aggregateExt op).2 := by
  have hargs := Document.listOf_map
    (fun text => (rfl : Document.string (.ofJson (.str text)) = .ok text)) (op.2.take 1)
  refine extends_object (by simp [Fields.names]) ?_
  simp only [List.forall_mem_cons]
  exact ⟨ExtensionDecl.takes_arg hargs
    (Nat.le_trans (Nat.le_of_eq (List.length_map _)) (List.length_take_le 1 op.2)),
    ExtensionDecl.takes_free rfl rfl fun _ =>
      ⟨rfl, rfl⟩, ExtensionDecl.takes_free rfl rfl fun _ => ⟨rfl, rfl⟩,
    List.forall_mem_nil _⟩

theorem extends_of_mem_channelExt : ∀ member ∈ channelExt, Extends member.2 := by
  refine forall_mem_extend (forall_mem_extend ?_ ?_) ?_
  · simp only [List.forall_mem_cons]
    refine ⟨extends_fieldExt _ _, extends_fieldExt _ _, extends_fieldExt _ _,
      extends_fieldExt _ _, ?_, List.forall_mem_nil _⟩
    exact extends_argExt (by simp [Fields.names])
      (List.forall_mem_singleton.2 (ExtensionDecl.takes_free rfl rfl fun _ => ⟨rfl, rfl⟩))
  · exact List.forall_mem_map.2 fun op _ => extends_aggregateExt op
  · exact List.forall_mem_map.2 fun op _ => extends_timeUnitExt op

/-- The dispatch table of a channel is accepted, whatever the schema calls the channel. -/
theorem tabulates_channelTable (name : String) : Tabulates (channelTable name) := by
  unfold channelTable
  split
  · exact tabulates_of_parse rfl rfl
  · split
    · exact tabulates_of_parse rfl rfl
    · exact tabulates_null

/-- The channels of each schema are read. -/
theorem isEntry_channel (name : String) : IsEntry (channel name) := by
  refine isEntry_described (by simp [Fields.names]) ?_
  simp only [List.forall_mem_cons]
  exact ⟨isMember_def _, Declaration.takes_key (keys_of_parse rfl rfl),
    Declaration.takes_types (tabulates_channelTable name),
    Declaration.takes_ext extends_of_mem_channelExt, List.forall_mem_nil _⟩

/-! ### Data -/

theorem tabulates_dataTypes : Tabulates dataTypes := tabulates_of_parse rfl rfl

theorem isEntry_source (name : String) {args : List String} (h : Binds (.strs args)) :
    IsEntry (source name args) := by
  refine isEntry_described (by simp [Fields.names]) ?_
  simp only [List.forall_mem_cons]
  exact ⟨isMember_def _, Declaration.takes_arg h, List.forall_mem_nil _⟩

theorem isEntry_formatSource (format : String) : IsEntry (formatSource format) := by
  refine isEntry_described (by simp [Fields.names]) ?_
  simp only [List.forall_mem_cons]
  refine ⟨isMember_def _, Declaration.takes_types (tabulates_of_parse rfl rfl),
    Declaration.takes_set _ _,
    Declaration.takes_nest rfl, Declaration.takes_ext ?_, List.forall_mem_nil _⟩
  simp only [List.forall_mem_cons]
  exact ⟨extends_argExt_nil _ _ _, extends_argExt_nil _ _ _, extends_argExt_nil _ _ _,
    List.forall_mem_nil _⟩

theorem isEntry_formatSpec (format : String) : IsEntry (formatSpec format) := by
  refine isEntry_described (by simp [Fields.names]) ?_
  simp only [List.forall_mem_cons]
  exact ⟨isMember_def _, Declaration.takes_set _ _, List.forall_mem_nil _⟩

theorem isEntry_lookupData : IsEntry lookupData := by
  refine isEntry_described (by simp [Fields.names]) ?_
  simp only [List.forall_mem_cons]
  exact ⟨isMember_def _, Declaration.takes_arg (binds_of_parse rfl rfl),
    Declaration.takes_types tabulates_dataTypes,
    List.forall_mem_nil _⟩

/-- The generators of each schema are read. -/
theorem isEntry_generator (name : String) : IsEntry (generator name) := by
  have hargs : Binds (if name = "sequence" then .strs ["start", "stop", "step"] else .null) := by
    split
    · exact binds_of_parse rfl rfl
    · exact binds_null
  refine isEntry_described (by simp [Fields.names]) ?_
  simp only [List.forall_mem_cons]
  exact ⟨isMember_def _, Declaration.takes_key (keys_of_parse rfl rfl), Declaration.takes_arg hargs,
    List.forall_mem_nil _⟩

/-! ### Charts -/

theorem extends_of_mem_specExt : ∀ member ∈ specExt, Extends member.2 := by
  simp only [specExt, List.forall_mem_cons]
  refine ⟨?_, extends_argExt_nil _ _ _, extends_null, List.forall_mem_nil _⟩
  exact extends_argExt (by simp [Fields.names])
    (List.forall_mem_singleton.2 (ExtensionDecl.takes_types tabulates_dataTypes))

theorem extends_of_mem_layerExt : ∀ member ∈ layerExt, Extends member.2 := by
  refine forall_mem_extend ?_ extends_of_mem_specExt
  simp only [List.forall_mem_cons]
  exact ⟨extends_null, extends_argExt_nil _ _ _, List.forall_mem_nil _⟩

theorem tabulates_markTypes : Tabulates markTypes := tabulates_of_parse rfl rfl

theorem extends_of_mem_unitExt : ∀ member ∈ unitExt, Extends member.2 := by
  refine forall_mem_extend ?_ extends_of_mem_layerExt
  have hflag : IsExtMember ("flag", int 1) := ExtensionDecl.takes_free rfl rfl fun _ => ⟨rfl, rfl⟩
  simp only [List.forall_mem_cons]
  exact ⟨extends_argExt (by simp [Fields.names])
      (List.forall_mem_singleton.2 (ExtensionDecl.takes_types tabulates_markTypes)),
    extends_null, extends_argExt (by simp [Fields.names]) (List.forall_mem_singleton.2 hflag),
    extends_null, extends_argExt (by simp [Fields.names]) (List.forall_mem_singleton.2 hflag),
      List.forall_mem_nil _⟩

theorem extends_markExt (type : String) : Extends (markExt type).2 := by
  refine extends_object (by simp [Fields.names]) ?_
  simp only [List.forall_mem_cons]
  exact ⟨ExtensionDecl.takes_arg rfl (Nat.le_refl 1), ExtensionDecl.takes_free rfl rfl fun _ =>
    ⟨rfl, rfl⟩, List.forall_mem_nil _⟩

theorem passes_repeatPass : Passes companions repeatPass := passes_of_read rfl rfl (by decide)

theorem passes_of_mem_multiPass : ∀ member ∈ multiPass, Passes companions member.2 := by
  simp only [multiPass, List.forall_mem_cons]
  exact ⟨passes_of_read rfl rfl (by decide), passes_repeatPass, List.forall_mem_nil _⟩

theorem invokes_of_mem_specCall : ∀ member ∈ specCall, Invokes viewModule member.2 := by
  simp only [specCall, List.forall_mem_cons]
  refine ⟨?_, ?_, ?_, ?_, List.forall_mem_nil _⟩ <;> exact invokes_of_read rfl rfl

/-- Charts are read for each list of marks that the schema gives. -/
theorem isEntry_unit (marks : List String) : IsEntry (unit marks) := by
  refine isEntry_described (by simp [Fields.names]) ?_
  simp only [List.forall_mem_cons]
  refine ⟨isMember_def _, Declaration.takes_arg (binds_of_parse rfl rfl),
    Declaration.takes_types tabulates_markTypes,
    Declaration.takes_ext ?_, Declaration.takes_call invokes_of_mem_specCall,
    Declaration.takes_pass passes_of_mem_multiPass, List.forall_mem_nil _⟩
  exact forall_mem_extend extends_of_mem_unitExt (List.forall_mem_map.2 fun type _ =>
    extends_markExt type)

/-- The marks of each schema are read. -/
theorem isEntry_mark (type : String) : IsEntry (mark type) := by
  refine isEntry_described (by simp [Fields.names]) ?_
  exact List.forall_mem_singleton.2
    (Declaration.takes_ctr rfl rfl (show "mark" ∈ companions by decide))

theorem isEntry_layer {args : List String} (h : Binds (.strs args)) : IsEntry (layer args) := by
  refine isEntry_described (by simp [Fields.names]) ?_
  simp only [List.forall_mem_cons]
  exact ⟨isMember_def _, Declaration.takes_arg h, Declaration.takes_ext extends_of_mem_layerExt,
    Declaration.takes_call invokes_of_mem_specCall, Declaration.takes_pass passes_of_mem_multiPass,
    List.forall_mem_nil _⟩

/-- Compositions of charts are read. -/
theorem isEntry_composite (verb definition : String) {args : List String} (h : Binds (.strs args)) :
    IsEntry (composite verb definition args) := by
  have hagain :
      Passes companions (if definition = "TopLevelRepeatSpec" then .null else repeatPass) := by
    split
    · exact passes_null
    · exact passes_repeatPass
  refine isEntry_described (by simp [Fields.names]) ?_
  simp only [List.forall_mem_cons]
  exact ⟨isMember_def _, Declaration.takes_arg h, Declaration.takes_ext extends_of_mem_specExt,
    Declaration.takes_call invokes_of_mem_specCall,
    Declaration.takes_pass (List.forall_mem_singleton.2 hagain), List.forall_mem_nil _⟩

theorem isEntry_data : IsEntry data := by
  refine isEntry_described (by simp [Fields.names]) ?_
  simp only [List.forall_mem_cons]
  refine ⟨isMember_def _, Declaration.takes_arg (binds_of_parse rfl rfl),
    Declaration.takes_types tabulates_dataTypes,
    Declaration.takes_ext extends_of_mem_unitExt, Declaration.takes_call invokes_of_mem_specCall,
    Declaration.takes_pass (forall_mem_extend ?_ passes_of_mem_multiPass), List.forall_mem_nil _⟩
  simp only [List.forall_mem_cons]
  refine ⟨?_, ?_, ?_, ?_, ?_, ?_,
    List.forall_mem_nil _⟩ <;> exact passes_of_read rfl rfl (by decide)

end Catalog

end BuilderApi
