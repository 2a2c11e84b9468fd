import ZScript.Main
import ZScript.Proofs.Arguments
import ZScript.Proofs.Braces
import ZScript.Proofs.BundlingWork
import ZScript.Proofs.CommentedLines
import ZScript.Proofs.ExpansionLimits
import ZScript.Proofs.ImportFaults
import ZScript.Proofs.ImportWalks
import ZScript.Proofs.Leftovers
import ZScript.Proofs.NameResolution
import ZScript.Proofs.RawImports
import ZScript.Proofs.Reports
import ZScript.Proofs.Shielding
import ZScript.Proofs.StringTokens
import ZScript.Proofs.Unfolding
