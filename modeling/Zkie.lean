import Zkie.Admission
import Zkie.BoundTemplate
import Zkie.DerivedIds
import Zkie.EmbedLookup
import Zkie.GpuPlacement
import Zkie.IdentityBinding
import Zkie.LeafBinding
import Zkie.ManifestAccepts
import Zkie.MetadataAlias
import Zkie.NormFusion
import Zkie.PatchEmbed
import Zkie.PlanSuccess
import Zkie.ProcessTree
import Zkie.RangeGadgets
import Zkie.RunRetries
import Zkie.RunVerify
import Zkie.SoftmaxPanic
import Zkie.Staging
import Zkie.WorkerResultWire
import Zkie.WorkerSpecWire
