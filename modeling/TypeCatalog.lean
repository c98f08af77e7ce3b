import TypeCatalog.LogFormat
import TypeCatalog.Main
import TypeCatalog.Program.Builder
import TypeCatalog.Proofs.Canonical.Unfolding
import TypeCatalog.Proofs.Catalog.Addressing
import TypeCatalog.Proofs.Catalog.Alignment
import TypeCatalog.Proofs.Catalog.Bounds
import TypeCatalog.Proofs.Catalog.Gaps
import TypeCatalog.Proofs.Catalog.Layouts
import TypeCatalog.Proofs.Catalog.Merging
import TypeCatalog.Proofs.Catalog.Order
import TypeCatalog.Proofs.Catalog.Persistence
import TypeCatalog.Proofs.Catalog.Relocation
import TypeCatalog.Proofs.Library.Navigation
import TypeCatalog.Proofs.Package.Arrangement
import TypeCatalog.Proofs.Program.Assembly
import TypeCatalog.Proofs.Program.Guarded
import TypeCatalog.Proofs.Script.Breaks
import TypeCatalog.Proofs.Script.Edges
import TypeCatalog.Proofs.Settings.Chain
import TypeCatalog.Proofs.Template
