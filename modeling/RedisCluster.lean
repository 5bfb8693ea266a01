import RedisCluster.Library.Script
import RedisCluster.Library.FileTree
import RedisCluster.Library.Alongside
import RedisCluster.Library.Substitution
import RedisCluster.Library.Numeral
import RedisCluster.Shell.Text
import RedisCluster.Shell.Path
import RedisCluster.Shell.Machine
import RedisCluster.Shell.Arithmetic
import RedisCluster.Shell.Placeholder
import RedisCluster.Shell.Command
import RedisCluster.Shell.Rules
import RedisCluster.Shell.SideBySide
import RedisCluster.Common.Functions
import RedisCluster.Common.ReadCfg
import RedisCluster.Common.WriteCfg
import RedisCluster.Common.RoundTrip
import RedisCluster.Common.Store
import RedisCluster.Common.IpAddr
import RedisCluster.Tool.Cluster
import RedisCluster.Tool.Clean
import RedisCluster.Tool.Build
import RedisCluster.Tool.Config
import RedisCluster.Tool.Deploy
import RedisCluster.Tool.Main
import RedisCluster.Tool.Steps
import RedisCluster.Tool.Runs
import RedisCluster.Tool.Outputs
import RedisCluster.Tool.Chain
import RedisCluster.Tool.Templates
import RedisCluster.Tool.Plain
import RedisCluster.Tool.Contents
import RedisCluster.Tool.Installed
import RedisCluster.Tool.Validation
import RedisCluster.Tool.Invocations
import RedisCluster.Tool.Trees
import RedisCluster.Tool.TwoTrees
import RedisCluster.Sbin.Shutdown
import RedisCluster.Sbin.CreateCluster
import RedisCluster.Properties.Placeholders
import RedisCluster.Properties.Password
import RedisCluster.Properties.Success
import RedisCluster.Properties.Tls
import RedisCluster.Properties.Actions
import RedisCluster.Properties.Current
import RedisCluster.Properties.Simultaneous
import RedisCluster.Properties.Combined
import RedisCluster.Properties.Handover
import RedisCluster.Properties.Retry
import RedisCluster.Properties.Creation
import RedisCluster.Properties.Formatting
import RedisCluster.Properties.Markers
import RedisCluster.Properties.Packages
import RedisCluster.Properties.InstanceFiles
import RedisCluster.Properties.Protection
import RedisCluster.Properties.Isolation
import RedisCluster.Library.StepList
import RedisCluster.Library.Completes
import RedisCluster.Library.Edits
import RedisCluster.Shell.Edits
import RedisCluster.Sbin.Operate
import RedisCluster.Deployment.Plan
import RedisCluster.Deployment.Cleaning
import RedisCluster.Deployment.Delivery
import RedisCluster.Deployment.Configured
import RedisCluster.Deployment.Rendered
import RedisCluster.Deployment.Operation
import RedisCluster.Deployment.Output
import RedisCluster.Deployment.Completion
import RedisCluster.Deployment.Removal
import RedisCluster.Deployment.HalfBuilt
import RedisCluster.Deployment.Restart
