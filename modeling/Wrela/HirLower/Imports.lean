import Wrela.Data.Worklist
import Wrela.Package.Manifest

/-!
# Import resolution

How the modules of a package graph get at each other's names.  Imports of whole modules are resolved
first, module after module.  The names taken out of modules wait in one list, which is tried in
rounds: a name can be got as soon as its module exports it, and a public import exports it further.
-/

namespace Wrela.HirLower

open Wrela.Source Wrela.Package Wrela.Checked

structure Identifier where
  source : Span
  spelling : String
deriving DecidableEq

structure QualifiedName where
  source : Span
  segments : List Identifier

structure ImportedName where
  source : Span
  name : Identifier
  aliasName : Option Identifier
deriving DecidableEq

inductive ImportItems where
  | module (path : QualifiedName) (aliasName : Option Identifier)
  | names (module : QualifiedName) (names : List ImportedName)

structure ImportDeclaration where
  source : Span
  isPublic : Bool
  items : ImportItems

/-- The names an import takes out of a module. -/
def ImportDeclaration.importedNames (declaration : ImportDeclaration) : List ImportedName :=
  match declaration.items with
  | .module _ _ => []
  | .names _ names => names

structure ParsedFile where
  imports : List ImportDeclaration

structure DeclarationId where
  val : ℕ
deriving DecidableEq

structure ResolvedDeclaration where
  package : PackageId
  module : ModuleId
  declaration : DeclarationId
deriving DecidableEq

structure ResolvedVariant where
  enumeration : ResolvedDeclaration
  variant : ℕ
deriving DecidableEq

inductive Visibility where
  | priv | pub | reexported
deriving DecidableEq

inductive DeclarationOwner where
  | module (module : ModuleId)
  | declaration (declaration : DeclarationId)
deriving DecidableEq

structure Declaration where
  owner : DeclarationOwner
  visibility : Visibility

inductive SymbolTarget where
  | declaration (value : ResolvedDeclaration)
  | variant (value : ResolvedVariant)
deriving DecidableEq

def SymbolTarget.package : SymbolTarget → PackageId
  | .declaration value => value.package
  | .variant value => value.enumeration.package

inductive NamespaceTarget where
  | symbol (target : SymbolTarget)
  | module (package : PackageId) (module : ModuleId)
deriving DecidableEq

inductive SymbolOwner where
  | module (module : ModuleId)
  | declaration (declaration : DeclarationId)
deriving DecidableEq

structure Symbol where
  owner : SymbolOwner
  name : String
  target : SymbolTarget

/-! ## Results -/

structure NamedImport where
  module : ModuleId
  localName : String
  target : SymbolTarget
  source : Span

structure ModuleImport where
  module : ModuleId
  localPath : List String
  targetPackage : PackageId
  targetModule : ModuleId
  source : Span

/-- A name a module exports again, with the module it belongs to. -/
structure Reexport where
  module : ModuleId
  localName : String
  target : NamespaceTarget
  source : Span

structure PendingNamedImport where
  module : ModuleId
  targetModule : ModuleId
  isPublic : Bool
  imported : ImportedName
deriving DecidableEq

inductive ResolvedBinding where
  | declaration (value : ResolvedDeclaration)
  | variant (value : ResolvedVariant)
  | module (package : PackageId) (module : ModuleId)

/-- A name and what it stands for; nothing when it could not be resolved. -/
structure ResolvedUse where
  source : Span
  spelling : String
  target : Option ResolvedBinding

structure Diagnostic where
  code : String
  primary : Span
  message : String
deriving DecidableEq

inductive LowerFailure where
  | internalInvariant (text : String)

/-- What import resolution has recorded so far. -/
structure ImportState where
  namedImports : List NamedImport
  moduleImports : List ModuleImport
  reexports : List Reexport
  importEdges : Finset (ModuleId × ModuleId)
  uses : List ResolvedUse
  diagnostics : List Diagnostic

namespace ImportState

variable (state : ImportState)

def empty : ImportState := ⟨[], [], [], ∅, [], []⟩

def emit (code : String) (primary : Span) (message : String) : ImportState :=
  { state with diagnostics := state.diagnostics ++ [⟨code, primary, message⟩] }

def pushUse (use : ResolvedUse) : ImportState := { state with uses := state.uses ++ [use] }

def addImportEdge (source target : ModuleId) : ImportState :=
  { state with importEdges := insert (source, target) state.importEdges }

def recordModulePathUse (path : QualifiedName) (package : PackageId) (module : ModuleId) :
    ImportState :=
  match path.segments.getLast? with
  | none => state
  | some segment =>
    state.pushUse ⟨segment.source, segment.spelling, some (.module package module)⟩

def recordSymbolUse (identifier : Identifier) : SymbolTarget → ImportState
  | .declaration value =>
    state.pushUse ⟨identifier.source, identifier.spelling, some (.declaration value)⟩
  | .variant value => state.pushUse ⟨identifier.source, identifier.spelling, some (.variant value)⟩

def recordErrorUse (identifier : Identifier) : ImportState :=
  state.pushUse ⟨identifier.source, identifier.spelling, none⟩

/-- The module already exports the name again. -/
def hasReexport (module : ModuleId) (localName : String) : Bool :=
  state.reexports.any fun reexport ↦ reexport.module == module && reexport.localName == localName

def addReexport (module : ModuleId) (localName : String) (target : NamespaceTarget)
    (source : Span) : ImportState :=
  if state.hasReexport module localName then
    state.emit "hir-reexport-name-conflict" source
      "this public import duplicates another exported name"
  else { state with reexports := state.reexports ++ [⟨module, localName, target, source⟩] }

end ImportState

/-- What import resolution reads and does not change. -/
structure Session where
  packages : PackageGraph
  parsedFiles : List ParsedFile
  /-- Where the modules stand in the sources. -/
  moduleSources : List Span
  declarations : List Declaration
  symbols : List Symbol

namespace Session

variable (session : Session)

def importsOf (file : FileId) : List ImportDeclaration :=
  (session.parsedFiles[file.val.toNat]?).elim [] ParsedFile.imports

/-- Every name the modules import, module after module. -/
def importedNames : List ImportedName :=
  session.packages.modules.flatMap fun module ↦
    (session.importsOf module.source).flatMap ImportDeclaration.importedNames

/-- A declaration that other modules may see. -/
def isVisible (declaration : DeclarationId) : Bool :=
  session.declarations[declaration.val]?.any fun declaration ↦ declaration.visibility != .priv

def isOwnedByModule (declaration : DeclarationId) (module : ModuleId) : Bool :=
  session.declarations[declaration.val]?.any fun declaration ↦ declaration.owner == .module module

/-- The symbol is in the namespace the module shows to others. -/
def isExported (module : ModuleId) (name : String) (symbol : Symbol) : Bool :=
  match symbol.target with
  | .declaration target =>
    target.module == module && symbol.owner == .module module && symbol.name == name &&
      session.isVisible target.declaration
  | .variant target =>
    target.enumeration.module == module &&
      session.isOwnedByModule target.enumeration.declaration module && symbol.name == name &&
      session.isVisible target.enumeration.declaration

def exportedSymbols (module : ModuleId) (name : String) : List NamespaceTarget :=
  (session.symbols.filter (session.isExported module name)).map fun symbol ↦ .symbol symbol.target

def exportedNamespaces (state : ImportState) (module : ModuleId) (name : String) :
    List NamespaceTarget :=
  ((state.reexports.filter fun reexport ↦
    reexport.module == module && reexport.localName == name).map Reexport.target) ++
    session.exportedSymbols module name

def declares (module : ModuleId) (name : String) : Bool :=
  session.symbols.any fun symbol ↦ symbol.owner == .module module && symbol.name == name

def importNameConflicts (state : ImportState) (module : ModuleId) (name : String) : Bool :=
  session.declares module name ||
    (state.namedImports.any fun binding ↦ binding.module == module && binding.localName == name) ||
    state.moduleImports.any fun binding ↦ binding.module == module && binding.localPath == [name]

def importModuleTarget (currentPackage : PackageId) (path : QualifiedName) :
    Except LowerFailure (Option (PackageId × ModuleId)) :=
  match path.segments with
  | [] => .ok none
  | first :: rest => do
    let package ← orFail (session.packages.package currentPackage)
      (.internalInvariant "module refers to an absent package")
    let dependency := package.dependencies.find? fun edge ↦ edge.name.text == first.spelling
    let (targetPackage, moduleSegments) :=
      dependency.elim (currentPackage, first :: rest) fun edge ↦ (edge.package, rest)
    if moduleSegments.isEmpty then pure none
    else
      let found := session.packages.modules.find? fun module ↦
        module.package == targetPackage &&
          module.path.segments == moduleSegments.map Identifier.spelling
      pure (found.map fun module ↦ (targetPackage, module.id))

/-- An import of a whole module, under its path or an alias. -/
def resolveModuleImport (module : ModuleId) (currentPackage : PackageId)
    (declaration : ImportDeclaration) (path : QualifiedName) (aliasName : Option Identifier)
    (state : ImportState) : Except LowerFailure ImportState := do
  match ← session.importModuleTarget currentPackage path with
  | none =>
    pure (state.emit "hir-unknown-import-module" path.source
      "this import does not name a declared module in the package graph")
  | some (package, targetModule) =>
    let state := (state.addImportEdge module targetModule).recordModulePathUse path package
      targetModule
    let localPath := aliasName.elim (path.segments.map Identifier.spelling) fun aliasName ↦
      [aliasName.spelling]
    let localName ← orFail localPath.head?
      (.internalInvariant "validated module import had an empty path")
    if session.importNameConflicts state module localName then
      pure (state.emit "hir-import-name-conflict" (aliasName.elim path.source Identifier.source)
        "this module import conflicts with another name in the module")
    else
      let state := { state with
        moduleImports := state.moduleImports ++
          [⟨module, localPath, package, targetModule, declaration.source⟩] }
      if declaration.isPublic then
        pure (state.addReexport module localName (.module package targetModule) declaration.source)
      else pure state

/-- One import: of a module at once, of names into the list of pending ones. -/
def collectImport (module : ModuleId) (currentPackage : PackageId)
    (collected : ImportState × List PendingNamedImport) (declaration : ImportDeclaration) :
    Except LowerFailure (ImportState × List PendingNamedImport) :=
  match declaration.items with
  | .module path aliasName => do
    let state ← session.resolveModuleImport module currentPackage declaration path aliasName
      collected.1
    pure (state, collected.2)
  | .names path names => do
    match ← session.importModuleTarget currentPackage path with
    | none =>
      pure (collected.1.emit "hir-unknown-import-module" path.source
        "this from-import does not name a declared module in the package graph", collected.2)
    | some (package, targetModule) =>
      let state := (collected.1.addImportEdge module targetModule).recordModulePathUse path package
        targetModule
      pure (state, collected.2 ++ names.map fun imported ↦
        ⟨module, targetModule, declaration.isPublic, imported⟩)

/-- The imports of one module. -/
def collectModule (collected : ImportState × List PendingNamedImport) (module : ModuleId) :
    Except LowerFailure (ImportState × List PendingNamedImport) :=
  match session.packages.modules[module.val]? with
  | none => .ok collected
  | some record =>
    (session.importsOf record.source).foldlM (session.collectImport module record.package) collected

def collectImports (order : List ModuleId) :
    Except LowerFailure (ImportState × List PendingNamedImport) :=
  order.foldlM session.collectModule (.empty, [])

end Session

/-- A session over a sealed package graph and parsed files: every module belongs to a package, and
every imported name has a place of its own in the sources. -/
structure ImportGraph where
  session : Session
  packages_present : ∀ module ∈ session.packages.modules,
    (session.packages.package module.package).isSome = true
  names_distinct : (session.importedNames.map fun imported ↦ imported.name.source).Nodup
  imports_distinct : (session.importedNames.map ImportedName.source).Nodup

namespace PendingNamedImport

variable (task : PendingNamedImport)

/-- The name the import has in its module. -/
def localName : String := task.imported.aliasName.elim task.imported.name.spelling Identifier.spelling

end PendingNamedImport

namespace Session

variable (session : Session)

/-- Take the target into the module, and say whether the import is public. -/
def installNamedImport (task : PendingNamedImport) (target : NamespaceTarget)
    (state : ImportState) : Bool × ImportState :=
  if session.importNameConflicts state task.module task.localName then
    (false, state.emit "hir-import-name-conflict" task.imported.source
      "this imported name conflicts with another name in the module")
  else
    let state :=
      match target with
      | .symbol target =>
        let state := state.recordSymbolUse task.imported.name target
        { state with
          namedImports := state.namedImports ++
            [⟨task.module, task.localName, target, task.imported.source⟩] }
      | .module package module =>
        let state := (state.pushUse ⟨task.imported.name.source, task.imported.name.spelling,
          some (.module package module)⟩).addImportEdge task.module module
        { state with
          moduleImports := state.moduleImports ++
            [⟨task.module, [task.localName], package, module, task.imported.source⟩] }
    if task.isPublic then
      (true, state.addReexport task.module task.localName target task.imported.source)
    else (false, state)

def attemptNamedImport (state : ImportState) (task : PendingNamedImport) :
    Option (Worklist.Effect ImportState) :=
  match session.exportedNamespaces state task.targetModule task.imported.name.spelling with
  | [] => none
  | [target] =>
    let (exportsAdded, state) := session.installNamedImport task target state
    some ⟨exportsAdded, state⟩
  | _ =>
    some ⟨false, (state.emit "hir-ambiguous-import-name" task.imported.name.source
      "this imported name is ambiguous in its source module").recordErrorUse task.imported.name⟩

def reportUnknown (state : ImportState) (task : PendingNamedImport) : ImportState :=
  (state.emit "hir-unknown-import-name" task.imported.name.source
    "the imported module has no public declaration, variant, or module with this name")
    |>.recordErrorUse task.imported.name

/-- The rounds over the pending imports; one round more than there are imports is always enough. -/
def importRounds (pending : List PendingNamedImport) (state : ImportState) :
    Option (List PendingNamedImport × ImportState) :=
  Worklist.rounds session.attemptNamedImport (pending.length + 1) pending state

def resolvePendingNamedImports (pending : List PendingNamedImport) (state : ImportState) :
    ImportState :=
  let (unresolved, state) := (session.importRounds pending state).get
    (Worklist.isSome_rounds (Nat.lt_succ_self _))
  unresolved.foldl reportUnknown state

def preludeNames : List String := ["Option", "Some", "None", "Result", "Ok", "Err", "panic"]

/-- What every module sees of the core packages, unless it has the name itself. -/
def fixedPrelude (state : ImportState) : List NamedImport :=
  let corePackages := (session.packages.packages.filter fun package ↦
    package.identity.name.text == "wrela-core").map PackageRecord.id
  let targets := session.symbols.filter fun symbol ↦
    preludeNames.contains symbol.name && corePackages.contains symbol.target.package
  (session.moduleSources.zipIdx).flatMap fun (source, index) ↦
    (targets.filter fun symbol ↦
      !((state.namedImports.any fun binding ↦
          binding.module == ⟨index⟩ && binding.localName == symbol.name) ||
        session.declares ⟨index⟩ symbol.name)).map fun symbol ↦
      ⟨⟨index⟩, symbol.name, symbol.target, source⟩

end Session

/-- The bytes of the name decide within a module, and the place between equal names. -/
def bindingKey (module : ModuleId) (name : String) (source : Span) : ℕ ×ₗ List UInt8 ×ₗ ℕ :=
  toLex (module.val, toLex (Wire.utf8Bytes name, source.range.start.toNat))

def ModuleImport.key (binding : ModuleImport) : ℕ ×ₗ List (List UInt8) ×ₗ ℕ :=
  toLex (binding.module.val,
    toLex (binding.localPath.map Wire.utf8Bytes, binding.source.range.start.toNat))

def NamedImport.key (binding : NamedImport) : ℕ ×ₗ List UInt8 ×ₗ ℕ :=
  bindingKey binding.module binding.localName binding.source

def Reexport.key (reexport : Reexport) : ℕ ×ₗ List UInt8 ×ₗ ℕ :=
  bindingKey reexport.module reexport.localName reexport.source

/-- What import resolution leaves to the lowering of bodies. -/
structure ImportOutcome where
  namedImports : List NamedImport
  moduleImports : List ModuleImport
  reexports : List Reexport
  importEdges : Finset (ModuleId × ModuleId)
  uses : List ResolvedUse
  diagnostics : List Diagnostic
  preludeBindings : List NamedImport

namespace Session

variable (session : Session)

/-- Everything found, in the order of modules, names and places. -/
def finishImports (state : ImportState) : ImportOutcome where
  namedImports := state.namedImports.insertionSort fun left right ↦ left.key ≤ right.key
  moduleImports := state.moduleImports.insertionSort fun left right ↦ left.key ≤ right.key
  reexports := state.reexports.insertionSort fun left right ↦ left.key ≤ right.key
  importEdges := state.importEdges
  uses := state.uses
  diagnostics := state.diagnostics
  preludeBindings := (session.fixedPrelude state).insertionSort fun left right ↦
    left.key ≤ right.key

def moduleOrder : List ModuleId := (List.range session.packages.modules.length).map ModuleId.mk

def resolveImports : Except LowerFailure ImportOutcome := do
  let (state, pending) ← session.collectImports session.moduleOrder
  pure (session.finishImports (session.resolvePendingNamedImports pending state))

end Session

end Wrela.HirLower
