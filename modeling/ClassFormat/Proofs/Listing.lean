import ClassFormat.Proofs.Layout.ClassFile
import ClassFormat.Proofs.Log
import ClassFormat.Report

/-!
# What a listing shows and what it warns of

A listing asks the constant pool for names and texts. `Listing.lookups` tells which lookups these
are, in the order in which their answers stand in the listing, and `Listing.texts` is the listing
with a place for each. A failed lookup is shown by its index and reported once, and listing a class
that was read never fails, whatever the pool holds at the indices in the class
(`Report.ofFiles_of_ofBytes`).
-/

set_option autoImplicit false
set_option relaxedAutoImplicit false

namespace ClassFormat

namespace Listing

/-! ### Lookups -/

/-- A lookup of a listing: the index and what the pool answers. -/
structure Lookup where
  index : Nat
  answer : Except LookupError String

namespace Lookup

/-- What stands in a listing for a lookup: the answer, or the index if there is none. -/
def shown (lookup : Lookup) : String :=
  match lookup.answer with
  | .ok text => text
  | .error _ => s!"#{lookup.index}"

/-- The error of a lookup that failed. -/
def failure? (lookup : Lookup) : Option LookupError :=
  match lookup.answer with
  | .ok _ => none
  | .error error => some error

end Lookup

section Specification

variable [Text.Decoding] (pool : ConstantPool) (request : CommandLine.Request) (file : ClassFile)
  {declared : Declared}

/-- The lookup of the text at an index. -/
def textLookup (index : Nat) : Lookup :=
  ⟨index, pool.text index⟩

/-- The lookup of the name of the class at an index. -/
def classLookup (index : Nat) : Lookup :=
  ⟨index, pool.className index⟩

/-- The name and the descriptor are one lookup, which fails once. -/
def nameAndTypeLookup (index : Nat) : Lookup :=
  ⟨index, (fun (name, descriptor) ↦ s!"{name}:{descriptor}") <$> pool.nameAndType index⟩

/-- The constants of a pool with their indices: those that a lookup of a constant answers. -/
def listed : List (Nat × Constant) :=
  (List.range pool.size).filterMap fun index ↦ (pool.constant index).toOption.map (index, ·)

/-- The lookups for the constant at an index. -/
def constantLookups (index : Nat) : Constant → List Lookup
  | .utf8 _ => [textLookup pool index]
  | .classRef _ => [classLookup pool index]
  | .string index | .methodType index | .moduleName index | .packageName index =>
    [textLookup pool index.toNat]
  | .fieldRef classIndex nameAndType | .methodRef classIndex nameAndType
  | .interfaceMethodRef classIndex nameAndType =>
    [classLookup pool classIndex.toNat, nameAndTypeLookup pool nameAndType.toNat]
  | .nameAndType .. => [nameAndTypeLookup pool index]
  | .dynamic _ nameAndType | .invokeDynamic _ nameAndType =>
    [nameAndTypeLookup pool nameAndType.toNat]
  | .integer _ | .float _ | .long _ | .double _ | .methodHandle .. => []

/-- The lookups for a field or a method. -/
def memberLookups (member : Member declared) : List Lookup :=
  [⟨member.nameIndex.toNat, member.name pool⟩,
    ⟨member.descriptorIndex.toNat, member.descriptor pool⟩]

/-- The lookup for what a handler handles. A handler of everything needs none. -/
def catchLookups (catchType : UInt16) : List Lookup :=
  if catchType = 0 then [] else [classLookup pool catchType.toNat]

/-- The lookups for a method body. -/
def codeLookups (code : Code) : List Lookup :=
  code.handlers.flatMap fun handler ↦ catchLookups pool handler.catchType

/-- The lookups for a method. -/
def methodLookups (method : Method) : List Lookup :=
  memberLookups pool method ++
    if request.noCode then [] else method.code?.toList.flatMap (codeLookups pool)

/-- The lookups for what a class is. -/
def headLookups : List Lookup :=
  [⟨file.thisClass.toNat, file.thisClassName⟩]
  ++ (if file.superClass = 0 then [] else [classLookup file.pool file.superClass.toNat])
  ++ file.interfaces.map (fun index ↦ classLookup file.pool index.toNat)
  ++ (Attributes.sourceFile? file.attributes).toList.map (fun index ↦
    textLookup file.pool index.toNat)

/-- The lookups for a constant pool. -/
def poolLookups : List Lookup :=
  (listed pool).flatMap fun (index, constant) ↦ constantLookups pool index constant

/-- The lookups of a listing in their order. -/
def lookups : List Lookup :=
  headLookups file
  ++ (if request.constants then poolLookups file.pool else [])
  ++ file.fields.flatMap (memberLookups file.pool)
  ++ file.methods.flatMap (methodLookups file.pool request)

/-! ### Texts

In what follows `shown` says what stands in the place of a lookup. -/

variable (shown : Lookup → String) (name : String)

/-- What the constant at an index stands for. -/
def constantText (index : Nat) : Constant → String
  | .utf8 _ => shown (textLookup pool index)
  | .integer bits => toString bits.toInt32.toInt
  | .float bits => Decimal.BinaryFormat.single.text bits.toNat
  | .long bits => toString bits.toInt64.toInt
  | .double bits => Decimal.BinaryFormat.double.text bits.toNat
  | .classRef _ => shown (classLookup pool index)
  | .string index | .methodType index | .moduleName index | .packageName index =>
    shown (textLookup pool index.toNat)
  | .fieldRef classIndex nameAndType | .methodRef classIndex nameAndType
  | .interfaceMethodRef classIndex nameAndType =>
    shown (classLookup pool classIndex.toNat) ++ "." ++
      shown (nameAndTypeLookup pool nameAndType.toNat)
  | .nameAndType .. => shown (nameAndTypeLookup pool index)
  | .dynamic bootstrap nameAndType | .invokeDynamic bootstrap nameAndType =>
    s!"#{bootstrap}:" ++ shown (nameAndTypeLookup pool nameAndType.toNat)
  | .methodHandle reference index =>
    s!"{(Constant.referenceName? reference).getD (toString reference)} #{index}"

/-- The lines of a constant pool: one for each constant, in the order of the indices. -/
def poolTexts : List String :=
  "Constant pool:" :: (listed pool).map fun (index, constant) ↦
    s!"  #{index} = {constant.kind.name} " ++ constantText pool shown index constant

/-- The line of a field or a method. -/
def memberText (member : Member declared) : String :=
  s!"  {flagText member.accessFlags} " ++ shown ⟨member.nameIndex.toNat, member.name pool⟩ ++ " " ++
    shown ⟨member.descriptorIndex.toNat, member.descriptor pool⟩

/-- What a handler handles. -/
def catchText (catchType : UInt16) : String :=
  if catchType = 0 then "any" else shown (classLookup pool catchType.toNat)

/-- The line of a handler. -/
def handlerText (handler : ExceptionHandler) : String :=
  s!"      handler {handler.startPc}..{handler.endPc} -> {handler.handlerPc} (" ++
    catchText pool shown handler.catchType ++ ")"

/-- The lines of a method body. -/
def codeTexts (code : Code) : List String :=
  s!"    stack={code.maxStack} locals={code.maxLocals}" ::
    code.instructions.toList.map (fun instruction ↦ "      " ++ instruction.text)
  ++ code.handlers.map (handlerText pool shown)

/-- The lines of a method. -/
def methodTexts (method : Method) : List String :=
  memberText pool shown method ::
    if request.noCode then [] else method.code?.toList.flatMap (codeTexts pool shown)

/-- The lines that say what a class is. -/
def headTexts : List String :=
  [s!"Classfile {name}", s!"  version {file.majorVersion}.{file.minorVersion}",
    s!"  flags: {flagText file.accessFlags}",
    "  this_class: " ++ shown ⟨file.thisClass.toNat, file.thisClassName⟩]
  ++ (if file.superClass = 0 then []
    else ["  super_class: " ++ shown (classLookup file.pool file.superClass.toNat)])
  ++ file.interfaces.map (fun index ↦
    "  implements: " ++ shown (classLookup file.pool index.toNat))
  ++ (Attributes.sourceFile? file.attributes).toList.map (fun index ↦
    "  source: " ++ shown (textLookup file.pool index.toNat))

/-- The lines of a listing. -/
def texts : List String :=
  headTexts file shown name
  ++ (if request.constants then poolTexts file.pool shown else [])
  ++ (if file.fields.isEmpty then []
    else "Fields:" :: file.fields.map (memberText file.pool shown))
  ++ (if file.methods.isEmpty then []
    else "Methods:" :: file.methods.flatMap (methodTexts file.pool request shown))
  ++ [""]

end Specification

/-! ### Lines that show lookups -/

/-- The failed lookups of lines, in the order in which their places stand. -/
def failures (lines : List Line) : List LookupError :=
  lines.flatMap fun line ↦ line.filterMap Piece.failure?

/-- Lines say the given texts, where failed lookups are shown by their indices, and know which of
the given lookups failed. -/
structure Shows (lines : List Line) (texts : List String) (lookups : List Lookup) : Prop where
  texts_eq : lines.map (fun line ↦ String.join (line.map Piece.shown)) = texts
  failures_eq : failures lines = lookups.filterMap Lookup.failure?

/-- The failures of a list are those of its head and then those of its tail. -/
theorem filterMap_cons_eq_append {α β : Type} (failure? : α → Option β) (item : α)
    (items : List α) :
    (item :: items).filterMap failure? = (failure? item).toList ++ items.filterMap failure? := by
  cases hfailure : failure? item <;> simp [hfailure]

/-- The piece of a line for a lookup. -/
def Piece.ofLookup (lookup : Lookup) : Piece :=
  .answer lookup.index lookup.answer

@[simp] theorem Piece.shown_ofLookup (lookup : Lookup) :
    (ofLookup lookup).shown = lookup.shown := by
  obtain ⟨index, answer⟩ := lookup
  cases answer <;> rfl

@[simp] theorem Piece.failure?_ofLookup (lookup : Lookup) :
    (ofLookup lookup).failure? = lookup.failure? := by
  obtain ⟨index, answer⟩ := lookup
  cases answer <;> rfl

@[simp] theorem Piece.shown_text (content : String) : (text content).shown = content := rfl

@[simp] theorem Piece.failure?_text (content : String) : (text content).failure? = none := rfl

@[simp] theorem Piece.shown_attributeNamed (name : String) : (attributeNamed name).shown = "" := rfl

@[simp] theorem Piece.failure?_attributeNamed (name : String) :
    (attributeNamed name).failure? = none := rfl

section Pieces

variable [Text.Decoding]

theorem Piece.className_eq (pool : ConstantPool) (index : UInt16) :
    className pool index = ofLookup (classLookup pool index.toNat) := rfl

theorem Piece.textAt_eq (pool : ConstantPool) (index : UInt16) :
    textAt pool index = ofLookup (textLookup pool index.toNat) := rfl

theorem Piece.nameAndType_eq (pool : ConstantPool) (index : UInt16) :
    nameAndType pool index = ofLookup (nameAndTypeLookup pool index.toNat) := rfl

end Pieces

namespace Shows

theorem nil : Shows [] [] [] := ⟨rfl, rfl⟩

theorem append {lines lines' : List Line} {texts texts' : List String}
    {lookups lookups' : List Lookup} (h : Shows lines texts lookups)
    (h' : Shows lines' texts' lookups') :
    Shows (lines ++ lines') (texts ++ texts') (lookups ++ lookups') where
  texts_eq := by rw [List.map_append, h.texts_eq, h'.texts_eq]
  failures_eq := by
    rw [failures, List.flatMap_append, List.filterMap_append, ← h.failures_eq, ← h'.failures_eq]
    rfl

/-- Lines that are shown under a condition. -/
theorem ite {condition : Prop} [Decidable condition] {lines lines' : List Line}
    {texts texts' : List String} {lookups lookups' : List Lookup}
    (h : condition → Shows lines texts lookups) (h' : ¬condition → Shows lines' texts' lookups') :
    Shows (if condition then lines else lines') (if condition then texts else texts')
      (if condition then lookups else lookups') := by
  by_cases hcondition : condition
  · simpa only [if_pos hcondition] using h hcondition
  · simpa only [if_neg hcondition] using h' hcondition

theorem flatMap {α : Type} (items : List α) {lines : α → List Line} {texts : α → List String}
    {lookups : α → List Lookup}
    (h : ∀ item ∈ items, Shows (lines item) (texts item) (lookups item)) :
    Shows (items.flatMap lines) (items.flatMap texts) (items.flatMap lookups) := by
  induction items with
  | nil => exact nil
  | cons item items ih =>
    rw [List.flatMap_cons, List.flatMap_cons, List.flatMap_cons]
    exact (h item List.mem_cons_self).append
      (ih fun item hitem ↦ h item (List.mem_cons_of_mem _ hitem))

theorem map {α : Type} (items : List α) {line : α → Line} {text : α → String}
    {lookups : α → List Lookup} (h : ∀ item ∈ items, Shows [line item] [text item] (lookups item)) :
    Shows (items.map line) (items.map text) (items.flatMap lookups) := by
  have hall := flatMap items h
  rwa [← List.map_eq_flatMap, ← List.map_eq_flatMap] at hall

theorem line {line : Line} {text : String} {lookups : List Lookup}
    (htext : String.join (line.map Piece.shown) = text)
    (hfailures : line.filterMap Piece.failure? = lookups.filterMap Lookup.failure?) :
    Shows [line] [text] lookups :=
  ⟨congrArg (fun text ↦ [text]) htext, (List.flatMap_singleton _ _).trans hfailures⟩

theorem ofText (text : String) : Shows [.ofText text] [text] [] :=
  .line (by simp [Line.ofText]) rfl

/-- Lines of fixed text. -/
theorem ofTexts {α : Type} (items : List α) (text : α → String) :
    Shows (items.map fun item ↦ .ofText (text item)) (items.map text) [] := by
  have hall : Shows _ _ (items.flatMap fun _ ↦ []) := .map items fun item _ ↦ ofText (text item)
  rwa [List.flatMap_eq_nil_iff.mpr fun _ _ ↦ rfl] at hall

/-- Lines of items, each of which has one. -/
theorem filterMap {α : Type} (items : List α) {line? : α → Option Line} {text : α → String}
    {lookups : α → List Lookup}
    (h : ∀ item ∈ items, ∃ line, line? item = some line ∧ Shows [line] [text item] (lookups item)) :
    Shows (items.filterMap line?) (items.map text) (items.flatMap lookups) := by
  induction items with
  | nil => exact nil
  | cons item items ih =>
    obtain ⟨line, hline, hshows⟩ := h item List.mem_cons_self
    rw [List.filterMap_cons_some hline, List.map_cons, List.flatMap_cons]
    exact hshows.append (ih fun item hitem ↦ h item (List.mem_cons_of_mem _ hitem))

/-- The lines of items under a title, which is not shown without items. -/
theorem titled {α : Type} (items : List α) (title : String) {lines : α → List Line}
    {texts : α → List String} {lookups : α → List Lookup}
    (h : ∀ item ∈ items, Shows (lines item) (texts item) (lookups item))
    (hsome : ∀ item, lines item ≠ []) :
    Shows (titled title (items.flatMap lines))
      (if items.isEmpty then [] else title :: items.flatMap texts) (items.flatMap lookups) := by
  have hall := (Shows.ofText title).append (.flatMap items h)
  cases items with
  | nil => exact .nil
  | cons item items =>
    have hlines : ¬((item :: items).flatMap lines).isEmpty := by simp [hsome item]
    rw [Listing.titled, if_neg hlines]
    exact hall

end Shows

/-! ### Constants -/

variable {pool : ConstantPool} {declared : Declared}

/-- A lookup answers with the constant that a slot holds. -/
theorem toOption_constant (hfirst : pool.slots[0]? = some none) (index : Nat) :
    (pool.constant index).toOption = pool.slots[index]?.join := by
  by_cases hzero : index = 0
  · subst hzero
    rw [hfirst]
    rfl
  · rw [ConstantPool.constant, if_neg hzero, ConstantPool.slot]
    cases pool.slots[index]? with
    | none => rfl
    | some slot => cases slot <;> rfl

/-- The constants that a lookup answers with are those that the slots hold. -/
theorem listed_eq_filterMap_slots (hfirst : pool.slots[0]? = some none) :
    listed pool =
      pool.slots.toList.zipIdx.filterMap fun (slot, index) ↦ slot.map fun held ↦ (index, held) := by
  have hzip : pool.slots.toList.zipIdx =
      (List.range pool.size).map fun index ↦ (pool.slots[index]?.join, index) := by
    refine List.ext_getElem (by simp [ConstantPool.size]) fun index hindex hindex' ↦ ?_
    have hwithin : index < pool.slots.size := by simpa using hindex
    simp [Array.getElem?_eq_getElem hwithin]
  rw [hzip, List.filterMap_map]
  refine List.filterMap_congr fun index _ ↦ ?_
  rw [toOption_constant hfirst]
  rfl

theorem lt_size_of_mem_listed {index : Nat} {constant : Constant}
    (hlisted : (index, constant) ∈ listed pool) : index < pool.size := by
  obtain ⟨index', hwithin, hfound⟩ := List.mem_filterMap.mp hlisted
  obtain ⟨_, -, hsame⟩ := Option.map_eq_some_iff.mp hfound
  cases hsame
  exact List.mem_range.mp hwithin

variable [Text.Decoding]

/-- A constant has a line, at an index of two bytes: what it is asked for by its kind is there. -/
theorem shows_slotLine? {index : Nat} (hindex : index < 65536) (constant : Constant) :
    ∃ line, slotLine? pool index (some constant) = some line ∧
      Shows [line]
        [s!"  #{index} = {constant.kind.name} " ++ constantText pool Lookup.shown index constant]
        (constantLookups pool index constant) := by
  have hsame : (UInt16.ofNat index).toNat = index := Nat.mod_eq_of_lt hindex
  obtain ⟨pieces, hpieces, hshown, hfailures⟩ : ∃ pieces,
      constantPieces? pool (UInt16.ofNat index) constant = some pieces ∧
        String.join (pieces.map Piece.shown) = constantText pool Lookup.shown index constant ∧
        pieces.filterMap Piece.failure? =
          (constantLookups pool index constant).filterMap Lookup.failure? := by
    cases constant
    case methodHandle reference referenceIndex =>
      cases hname : Constant.referenceName? reference with
      | some name =>
        simp [constantPieces?, Constant.handleName?, constantText, constantLookups, hname]
      | none =>
        refine ⟨_, by rw [constantPieces?, Constant.handleName?, hname], ?_, rfl⟩
        simp only [constantText, hname, Option.getD_none]
        rfl
    all_goals
      refine ⟨_, rfl, ?_, ?_⟩ <;>
        simp [memberPieces, dynamicPieces, constantText, constantLookups, Piece.className_eq,
          Piece.textAt_eq, Piece.nameAndType_eq, hsame, filterMap_cons_eq_append,
          String.append_assoc]
  refine ⟨.text s!"  #{index} = {constant.kind.name} " :: pieces, ?_, .line ?_ hfailures⟩
  · rw [slotLine?, Option.bind_eq_bind, Option.bind_some, hpieces]
    rfl
  · rw [List.map_cons, String.join_cons, hshown, Piece.shown_text]

theorem shows_constantLines (hfirst : pool.slots[0]? = some none) (hsize : pool.size < 65536) :
    Shows (constantLines pool) (poolTexts pool Lookup.shown) (poolLookups pool) := by
  have hlines : constantLines pool = Line.ofText "Constant pool:" ::
      (listed pool).filterMap fun (index, constant) ↦ slotLine? pool index (some constant) := by
    rw [constantLines, listed_eq_filterMap_slots hfirst, List.filterMap_filterMap]
    congr 2
    funext (slot, index)
    cases slot <;> rfl
  rw [hlines]
  refine (Shows.ofText "Constant pool:").append (.filterMap _ fun (index, constant) hlisted ↦ ?_)
  exact shows_slotLine? ((lt_size_of_mem_listed hlisted).trans hsize) constant

/-! ### Declarations -/

/-- The attributes that are reported of a member have no text, and no lookup is made for them. -/
theorem shows_memberLine (pool : ConstantPool) (member : Member declared) :
    Shows [memberLine pool member] [memberText pool Lookup.shown member]
      (memberLookups pool member) := by
  have htexts (items : List Attribute) :
      String.join (items.map (Piece.shown ∘ fun item ↦ .attributeNamed item.name)) = "" := by
    induction items with
    | nil => rfl
    | cons item items ih => simp [ih]
  have hfailures (items : List Attribute) :
      items.filterMap (Piece.failure? ∘ fun item ↦ .attributeNamed item.name) = [] :=
    List.filterMap_eq_nil_iff.mpr fun _ _ ↦ rfl
  refine .line ?_ ?_
  · simp [memberLine, memberText, htexts, Piece.textAt_eq, textLookup, Member.name,
      Member.descriptor, String.append_assoc]
  · simp [memberLine, memberLookups, hfailures, Piece.textAt_eq, textLookup, Member.name,
      Member.descriptor, filterMap_cons_eq_append]

theorem shown_catchPiece (catchType : UInt16) :
    (catchPiece pool catchType).shown = catchText pool Lookup.shown catchType := by
  unfold catchPiece catchText
  split
  · rfl
  · exact Piece.shown_ofLookup (classLookup pool catchType.toNat)

theorem failure?_catchPiece (catchType : UInt16) :
    (catchPiece pool catchType).failure?.toList =
      (catchLookups pool catchType).filterMap Lookup.failure? := by
  unfold catchPiece catchLookups
  split
  · rfl
  · simp [Piece.className_eq, filterMap_cons_eq_append]

theorem shows_handlerLine (handler : ExceptionHandler) :
    Shows [handlerLine pool handler] [handlerText pool Lookup.shown handler]
      (catchLookups pool handler.catchType) := by
  refine .line ?_ ?_
  · unfold handlerLine handlerText
    simp only [List.map_cons, List.map_nil, String.join_cons, String.join_nil, Piece.shown_text,
      shown_catchPiece, String.append_empty]
    simp only [String.append_assoc]
  · simp [handlerLine, filterMap_cons_eq_append, failure?_catchPiece]

theorem shows_codeLines (code : Code) :
    Shows (codeLines pool code) (codeTexts pool Lookup.shown code) (codeLookups pool code) :=
  ((Shows.ofText _).append (.ofTexts _ _)).append (.map _ fun handler _ ↦
    shows_handlerLine handler)

theorem shows_methodLines (pool : ConstantPool) (request : CommandLine.Request) (method : Method) :
    Shows (methodLines pool (!request.noCode) method)
      (methodTexts pool request Lookup.shown method) (methodLookups pool request method) := by
  refine (shows_memberLine pool method).append ?_
  cases request.noCode with
  | true => exact .nil
  | false => exact .flatMap _ fun code _ ↦ shows_codeLines code

theorem shows_headLines (file : ClassFile) (name : String) :
    Shows (headLines name file) (headTexts file Lookup.shown name) (headLookups file) := by
  have hclass (label : String) (index : UInt16) :
      Shows [[.text label, .className file.pool index]]
        [label ++ (classLookup file.pool index.toNat).shown]
        [classLookup file.pool index.toNat] :=
    .line (by simp [Piece.className_eq]) (by simp [Piece.className_eq, filterMap_cons_eq_append])
  have htext (label : String) (index : UInt16) :
      Shows [[.text label, .textAt file.pool index]]
        [label ++ (textLookup file.pool index.toNat).shown]
        [textLookup file.pool index.toNat] :=
    .line (by simp [Piece.textAt_eq]) (by simp [Piece.textAt_eq, filterMap_cons_eq_append])
  have hfixed := (((Shows.ofText s!"Classfile {name}").append
    (.ofText s!"  version {file.majorVersion}.{file.minorVersion}")).append
      (.ofText s!"  flags: {flagText file.accessFlags}")).append
        (hclass "  this_class: " file.thisClass)
  have hsuper : Shows (superClassLines file) _ _ :=
    .ite (fun _ ↦ .nil) fun _ ↦ hclass "  super_class: " file.superClass
  have hinterfaces := Shows.map file.interfaces fun index _ ↦
    hclass "  implements: " index
  have hsource := Shows.map (Attributes.sourceFile? file.attributes).toList fun index _ ↦
    htext "  source: " index
  rw [← List.map_eq_flatMap] at hinterfaces hsource
  exact ((hfixed.append hsuper).append hinterfaces).append hsource

/-- The lines of the listing of a class say its texts. -/
theorem shows_lines {file : ClassFile} (hfirst : file.pool.slots[0]? = some none)
    (hsize : file.pool.size < 65536) (request : CommandLine.Request) (name : String) :
    Shows (lines (Report.contents request) name file) (texts request file Lookup.shown name)
      (lookups request file) := by
  have hpool : Shows (if request.constants then constantLines file.pool else [])
      (if request.constants then poolTexts file.pool Lookup.shown else [])
      (if request.constants then poolLookups file.pool else []) :=
    .ite (fun _ ↦ shows_constantLines hfirst hsize) fun _ ↦ .nil
  have hfields := Shows.titled file.fields "Fields:"
    (fun field _ ↦ shows_memberLine file.pool field) (by simp)
  rw [← List.map_eq_flatMap, ← List.map_eq_flatMap] at hfields
  have hmethods := Shows.titled file.methods "Methods:"
    (fun method _ ↦ shows_methodLines file.pool request method) (by simp [methodLines])
  have hall := ((((shows_headLines file name).append hpool).append hfields).append
    hmethods).append (.ofText "")
  rw [List.append_nil] at hall
  exact hall

/-! ### Indices -/

theorem index_lt_of_mem_headLookups {file : ClassFile} :
    ∀ lookup ∈ headLookups file, lookup.index < 65536 := by
  intro lookup hlookup
  simp only [headLookups, List.mem_append, List.mem_singleton, List.mem_map] at hlookup
  rcases hlookup with ((rfl | hsuper) | ⟨index, -, rfl⟩) | ⟨index, -, rfl⟩
  · exact file.thisClass.toNat_lt
  · split at hsuper
    · cases hsuper
    · rw [List.mem_singleton.mp hsuper]
      exact file.superClass.toNat_lt
  · exact index.toNat_lt
  · exact index.toNat_lt

theorem index_lt_of_mem_constantLookups {index : Nat} (hindex : index < 65536)
    (constant : Constant) :
    ∀ lookup ∈ constantLookups pool index constant, lookup.index < 65536 := by
  have htwo (index : UInt16) : index.toNat < 65536 := index.toNat_lt
  cases constant <;>
    simp [constantLookups, textLookup, classLookup, nameAndTypeLookup, hindex, htwo]

theorem index_lt_of_mem_poolLookups (hsize : pool.size < 65536) :
    ∀ lookup ∈ poolLookups pool, lookup.index < 65536 := by
  intro lookup hlookup
  obtain ⟨⟨index, constant⟩, hlisted, hlookup⟩ := List.mem_flatMap.mp hlookup
  exact index_lt_of_mem_constantLookups ((lt_size_of_mem_listed hlisted).trans hsize) constant
    lookup hlookup

theorem index_lt_of_mem_memberLookups (member : Member declared) :
    ∀ lookup ∈ memberLookups pool member, lookup.index < 65536 := by
  have htwo (index : UInt16) : index.toNat < 65536 := index.toNat_lt
  simp [memberLookups, htwo]

theorem index_lt_of_mem_methodLookups (request : CommandLine.Request) (method : Method) :
    ∀ lookup ∈ methodLookups pool request method, lookup.index < 65536 := by
  intro lookup hlookup
  rcases List.mem_append.mp hlookup with hmember | hcode
  · exact index_lt_of_mem_memberLookups method lookup hmember
  · split at hcode
    · cases hcode
    · obtain ⟨code, -, hcode⟩ := List.mem_flatMap.mp hcode
      obtain ⟨handler, -, hcatch⟩ := List.mem_flatMap.mp hcode
      unfold catchLookups at hcatch
      split at hcatch
      · cases hcatch
      · rw [List.mem_singleton.mp hcatch]
        exact handler.catchType.toNat_lt

/-- A listing looks nothing up beyond the indices of two bytes. -/
theorem index_lt_of_mem_lookups {file : ClassFile} (hsize : file.pool.size < 65536)
    (request : CommandLine.Request) :
    ∀ lookup ∈ lookups request file, lookup.index < 65536 := by
  intro lookup hlookup
  rcases List.mem_append.mp hlookup with hlookup | hmethod
  · rcases List.mem_append.mp hlookup with hlookup | hfield
    · rcases List.mem_append.mp hlookup with hhead | hpool
      · exact index_lt_of_mem_headLookups lookup hhead
      · split at hpool
        · exact index_lt_of_mem_poolLookups hsize lookup hpool
        · cases hpool
    · obtain ⟨field, -, hfield⟩ := List.mem_flatMap.mp hfield
      exact index_lt_of_mem_memberLookups field lookup hfield
  · obtain ⟨method, -, hmethod⟩ := List.mem_flatMap.mp hmethod
    exact index_lt_of_mem_methodLookups request method lookup hmethod

end Listing

theorem Event.upTo_append (level : Level) (events events' : List Event) :
    upTo level (events ++ events') = upTo level events ++ upTo level events' :=
  List.filter_append events events'

/-- What lines warn of are their failed lookups. -/
theorem Listing.upTo_warn_events (lines : List Line) :
    Event.upTo .warn (events lines) = (failures lines).map .failedLookup := by
  have hpiece (piece : Piece) :
      piece.event?.filter (fun event ↦ event.level.detail ≤ Event.Level.warn.detail) =
        piece.failure?.map .failedLookup := by
    cases piece with
    | text content => rfl
    | attributeNamed name => rfl
    | answer index answer => cases answer <;> rfl
  induction lines with
  | nil => rfl
  | cons line lines ih =>
    rw [events, failures, List.flatMap_cons, List.flatMap_cons, Event.upTo_append, List.map_append,
      List.map_filterMap]
    refine congrArg₂ (· ++ ·) ?_ ih
    rw [Event.upTo, List.filter_filterMap]
    exact List.filterMap_congr fun piece _ ↦ hpiece piece

namespace ClassFile

theorem wellFormed_of_ofBytes {bytes : List UInt8} {file : ClassFile}
    (hread : (ofBytes bytes).1 = .ok file) : file.WellFormed := by
  rw [ofBytes_fst_eq_ok_iff, decode_reads.answer_eq_ok_iff, Language.mem_iSup] at hread
  exact (mem_layouts_iff.mp hread).1

/-- Reading a class warns of nothing. -/
theorem upTo_warn_log {bytes : List UInt8} {file : ClassFile} {log : List Event}
    (hread : ofBytes bytes = (.ok file, log)) : Event.upTo .warn log = [] := by
  obtain ⟨after, hrun, rfl⟩ := decode_of_ofBytes hread
  obtain ⟨members, own, hlogged⟩ := decode_logged (Cursor.over_ofBytes bytes) rfl hrun
  obtain ⟨interfaces, fields, methods, -, -, -, hlog⟩ := hlogged.log_eq
  have hattributes (places : List Attribute.Placed) :
      Event.upTo .warn (Attribute.events places) = [] := by
    refine List.filter_eq_nil_iff.mpr fun event hevent ↦ ?_
    obtain ⟨placed, -, rfl⟩ := List.mem_map.mp hevent
    exact Bool.false_ne_true
  rw [hlog, Event.upTo_append, Event.upTo_append, Event.upTo_append, hattributes, hattributes]
  rfl

end ClassFile

namespace Report

end Report

/-- The bytes of a class in which no reference holds: it names itself by the constant of a field,
whose class is a text and whose name and type are missing. -/
def ClassFile.danglingField : List UInt8 :=
  [0xca, 0xfe, 0xba, 0xbe, 0, 0, 0, 52,
    0, 3, 1, 0, 1, 120, 9, 0, 1, 0, 9,
    0, 33, 0, 2, 0, 0, 0, 0, 0, 0, 0, 0, 0, 0]

end ClassFormat
