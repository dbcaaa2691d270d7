import VirtualFs.Config.Reader
import VirtualFs.Default
import VirtualFs.Entry.Rendered
import VirtualFs.Host.Filesystem
import VirtualFs.Host.Outline
import VirtualFs.Proofs.Content.OneFile
import VirtualFs.Proofs.Tree.FlatRun
import VirtualFs.Tree.Description
import VirtualFs.Tree.Session
import VirtualFs.Tree.Stream
import VirtualFs.Proofs.Tree.SubView
import VirtualFs.Proofs.Tree.ReadBack
import VirtualFs.Proofs.Tree.Lasting
import VirtualFs.Proofs.Tree.WellFormed
import VirtualFs.Proofs.Tree.Lookups
import VirtualFs.Proofs.Content.Buffers
import VirtualFs.Proofs.Tree.Handles
import VirtualFs.Proofs.Tree.AppendOnly
import VirtualFs.Proofs.Tree.Visitor
import VirtualFs.Proofs.Tree.HandleEntry
import VirtualFs.Proofs.Tree.Refusal
import VirtualFs.Proofs.Tree.HandleFrame
import VirtualFs.Proofs.Tree.Failures
import VirtualFs.Proofs.Tree.WordRun
import VirtualFs.Proofs.Tree.Ageing
import VirtualFs.Proofs.Tree.Access
import VirtualFs.Proofs.Tree.Admitted
import VirtualFs.Proofs.Tree.StrictRun
import VirtualFs.Proofs.Tree.Records
import VirtualFs.Proofs.Host.RootedRun
import VirtualFs.Proofs.Tree.Defaults
import VirtualFs.Proofs.Tree.Stopped
import VirtualFs.Proofs.Tree.Paging
import VirtualFs.Proofs.Path.CleanEntry
import VirtualFs.Proofs.Tree.Directories
import VirtualFs.Proofs.Tree.Timeliness
import VirtualFs.Proofs.Tree.MakingAll
import VirtualFs.Proofs.Tree.NewFiles
import VirtualFs.Proofs.Tree.SharedRecords
import VirtualFs.Proofs.Path.Grammar
import VirtualFs.Proofs.Path.Joining
import VirtualFs.Proofs.Path.NormalForm
import VirtualFs.Proofs.Tagging
import VirtualFs.Proofs.Glob.Library
import VirtualFs.Proofs.Host.Relative
