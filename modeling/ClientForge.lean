import ClientForge.Log.Threshold
import ClientForge.Main
import ClientForge.Proofs.Catalog
import ClientForge.Proofs.FileAccess
import ClientForge.Proofs.Generation
import ClientForge.Proofs.ModuleGraph
import ClientForge.Proofs.Resolution
import ClientForge.Proofs.AppliedTrait
import ClientForge.Proofs.Containment
import ClientForge.Proofs.Folders
import ClientForge.Proofs.Replacement
import ClientForge.Proofs.JsonText
import ClientForge.Proofs.Fingerprint
import ClientForge.Proofs.Binding
import ClientForge.Proofs.Registration
import ClientForge.Proofs.ClassText
import ClientForge.Proofs.ClassFile
import ClientForge.Proofs.ShortNames
import ClientForge.Proofs.Autoload
import ClientForge.Proofs.Extension
import ClientForge.Proofs.Completeness
import ClientForge.Proofs.GivenRegistry
import ClientForge.Proofs.Refusal
import ClientForge.Proofs.Inheritance
import ClientForge.Proofs.AtomicWrite
import ClientForge.Proofs.DocComment
import ClientForge.Proofs.Reporting
import ClientForge.Proofs.MethodNames
import ClientForge.Proofs.NilUnion
import ClientForge.Proofs.Settings
import ClientForge.Proofs.FolderName
import ClientForge.Proofs.EnumConstants
import ClientForge.Proofs.Parentheses
import ClientForge.Proofs.PathExpression
import ClientForge.Proofs.Nesting
import ClientForge.Proofs.FlatExpression
import ClientForge.Proofs.Words
import ClientForge.Proofs.Arguments
import ClientForge.Proofs.Accessors
import ClientForge.Proofs.RuntimeMethods
import ClientForge.Proofs.FileLiteral
import ClientForge.Proofs.ClassName
import ClientForge.Proofs.ReservedWords
import ClientForge.Proofs.Nullability
import ClientForge.Proofs.SingletonType
import ClientForge.Proofs.SuccessResponse
import ClientForge.Proofs.RawType
import ClientForge.Proofs.BelowRoot
import ClientForge.Proofs.ItemsKey
import ClientForge.Proofs.VendorSpace
import ClientForge.Proofs.PathArgument
import ClientForge.Proofs.Manifest
import ClientForge.Proofs.SettledName
